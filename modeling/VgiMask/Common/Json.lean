import Mathlib.Data.Nat.Notation
import Mathlib.Logic.Basic

/-!
# JSON texts

The grammar of RFC 8259 relates a value to the texts that write it. Whitespace may stand
around the elements of arrays, the members of objects and their colons. A character of a
string stands for itself, or is written by a short escape, by its code unit, or by a pair of
surrogate units; a surrogate without its partner writes no character. A number is kept as its
text, and an object keeps its members in order.

The decoder reads one value from the front of a text and returns what follows it. Lists and
strings are read until they close, and values nest at most as deep as the text is long.
-/

namespace Common

/-- A JSON value. -/
inductive Json where
  | null
  | bool (b : Bool)
  | number (literal : List Char)
  | string (s : List Char)
  | array (elements : List Json)
  | object (members : List (List Char × Json))

namespace Json

/-- The insignificant whitespace. -/
def isWs (c : Char) : Bool := c == ' ' || c == '\t' || c == '\n' || c == '\r'

/-- A text of whitespace. -/
def Ws (t : List Char) : Prop := ∀ c ∈ t, isWs c = true

instance (t : List Char) : Decidable (Ws t) := decidable_of_iff (t.all isWs = true) List.all_eq_true

/-- The characters that stand for themselves in a string. -/
def isUnescaped (c : Char) : Bool := 0x20 ≤ c.toNat && c != '"' && c != '\\'

/-- The character of a short escape. -/
def shortEscape : Char → Option Char
  | '"' => some '"'
  | '\\' => some '\\'
  | '/' => some '/'
  | 'b' => some (Char.ofNat 8)
  | 'f' => some (Char.ofNat 12)
  | 'n' => some '\n'
  | 'r' => some '\r'
  | 't' => some '\t'
  | _ => none

/-- The value of a hexadecimal digit in either case. -/
def hexVal (c : Char) : Option ℕ :=
  if '0' ≤ c ∧ c ≤ '9' then some (c.toNat - 48)
  else if 'a' ≤ c ∧ c ≤ 'f' then some (c.toNat - 87)
  else if 'A' ≤ c ∧ c ≤ 'F' then some (c.toNat - 55)
  else none

/-- The code unit of four hexadecimal digits. -/
def codeUnit : List Char → Option ℕ
  | [a, b, c, d] => do
    let a ← hexVal a
    let b ← hexVal b
    let c ← hexVal c
    let d ← hexVal d
    pure (((a * 16 + b) * 16 + c) * 16 + d)
  | _ => none

/-- The first half of a surrogate pair. -/
def isHigh (u : ℕ) : Bool := 0xD800 ≤ u && u < 0xDC00

/-- The second half of a surrogate pair. -/
def isLow (u : ℕ) : Bool := 0xDC00 ≤ u && u < 0xE000

/-- The character of a surrogate pair. -/
def combine (high low : ℕ) : Char := Char.ofNat (0x10000 + (high - 0xD800) * 0x400 + (low - 0xDC00))

/-- The texts of a character in a string. -/
inductive CharText : Char → List Char → Prop
  | unescaped {c : Char} (h : isUnescaped c = true) : CharText c [c]
  | short {c e : Char} (h : shortEscape e = some c) : CharText c ['\\', e]
  | unit {digits : List Char} {u : ℕ} (h : codeUnit digits = some u) (hhigh : isHigh u = false)
      (hlow : isLow u = false) : CharText (Char.ofNat u) ('\\' :: 'u' :: digits)
  | pair {digits digits' : List Char} {high low : ℕ} (h : codeUnit digits = some high)
      (h' : codeUnit digits' = some low) (hhigh : isHigh high = true) (hlow : isLow low = true) :
      CharText (combine high low) ('\\' :: 'u' :: digits ++ '\\' :: 'u' :: digits')

/-- The texts between the quotes of a string. -/
inductive Chars : List Char → List Char → Prop
  | nil : Chars [] []
  | cons {c : Char} {cs t ts : List Char} (h : CharText c t) (hs : Chars cs ts) :
      Chars (c :: cs) (t ++ ts)

/-- One or more digits. -/
def Digits (t : List Char) : Prop := t ≠ [] ∧ ∀ c ∈ t, c.isDigit = true

/-- The texts of the integer part of a number, without leading zeros. -/
def IntPart (t : List Char) : Prop :=
  t = ['0'] ∨ ∃ d ds, t = d :: ds ∧ d.isDigit = true ∧ d ≠ '0' ∧ ∀ c ∈ ds, c.isDigit = true

/-- The texts of the fraction of a number. -/
def FracPart (t : List Char) : Prop := t = [] ∨ ∃ ds, t = '.' :: ds ∧ Digits ds

/-- The texts of the exponent of a number. -/
def ExpPart (t : List Char) : Prop :=
  t = [] ∨ ∃ e sign ds, t = e :: (sign ++ ds) ∧ (e = 'e' ∨ e = 'E') ∧
    (sign = [] ∨ sign = ['+'] ∨ sign = ['-']) ∧ Digits ds

/-- The texts of numbers. -/
def Number (t : List Char) : Prop :=
  ∃ minus int frac exp, t = minus ++ (int ++ (frac ++ exp)) ∧ (minus = [] ∨ minus = ['-']) ∧
    IntPart int ∧ FracPart frac ∧ ExpPart exp

/-- The texts of one or more items between commas. -/
inductive CommaList {β : Type} (Item : β → List Char → Prop) : List β → List Char → Prop
  | single {v : β} {w t w' : List Char} (hw : Ws w) (hv : Item v t) (hw' : Ws w') :
      CommaList Item [v] (w ++ (t ++ w'))
  | cons {v : β} {vs : List β} {w t w' ts : List Char} (hw : Ws w) (hv : Item v t) (hw' : Ws w')
      (hvs : CommaList Item vs ts) : CommaList Item (v :: vs) (w ++ (t ++ (w' ++ ',' :: ts)))

/-- The texts of a member of an object: its name, a colon and its value. -/
inductive Member (Value : Json → List Char → Prop) : List Char × Json → List Char → Prop
  | mk {name : List Char} {v : Json} {t w w' t' : List Char} (hname : Chars name t) (hw : Ws w)
      (hw' : Ws w') (hv : Value v t') :
      Member Value (name, v) ('"' :: (t ++ '"' :: (w ++ ':' :: (w' ++ t'))))

/-- The texts of a value. -/
inductive Value : Json → List Char → Prop
  | null : Value .null "null".toList
  | true : Value (.bool Bool.true) "true".toList
  | false : Value (.bool Bool.false) "false".toList
  | number {t : List Char} (h : Number t) : Value (.number t) t
  | string {s t : List Char} (h : Chars s t) : Value (.string s) ('"' :: (t ++ ['"']))
  | emptyArray {w : List Char} (hw : Ws w) : Value (.array []) ('[' :: (w ++ [']']))
  | array {vs : List Json} {t : List Char} (h : CommaList Value vs t) :
      Value (.array vs) ('[' :: (t ++ [']']))
  | emptyObject {w : List Char} (hw : Ws w) : Value (.object []) ('{' :: (w ++ ['}']))
  | object {ms : List (List Char × Json)} {t : List Char} (h : CommaList (Member Value) ms t) :
      Value (.object ms) ('{' :: (t ++ ['}']))

/-- The JSON texts of a value. -/
def TextOf (v : Json) (t : List Char) : Prop :=
  ∃ w body w', t = w ++ (body ++ w') ∧ Ws w ∧ Value v body ∧ Ws w'

/-- A reader of one item from the front of a text. -/
abbrev Reader (β : Type) := List Char → Option (β × List Char)

/-- The text after leading whitespace. -/
def skipWs (input : List Char) : List Char := input.dropWhile isWs

/-- Read a code unit, and its partner if it is the first half of a pair. -/
def readUnit : Reader Char := fun input => do
  let u ← codeUnit (input.take 4)
  if isHigh u then
    match input.drop 4 with
    | '\\' :: 'u' :: rest => do
      let low ← codeUnit (rest.take 4)
      if isLow low then some (combine u low, rest.drop 4) else none
    | _ => none
  else if isLow u then none
  else some (Char.ofNat u, input.drop 4)

/-- Read one character of a string. -/
def readChar : Reader Char
  | [] => none
  | c :: rest =>
    if c = '\\' then
      match rest with
      | [] => none
      | e :: rest => if e = 'u' then readUnit rest else (shortEscape e).map fun c => (c, rest)
    else if isUnescaped c then some (c, rest)
    else none

/-- Read the characters of a string up to its closing quote. -/
def readChars : ℕ → Reader (List Char)
  | 0, _ => none
  | _ + 1, [] => none
  | fuel + 1, c :: rest =>
    if c = '"' then some ([], rest)
    else do
      let (c, rest) ← readChar (c :: rest)
      let (cs, rest) ← readChars fuel rest
      some (c :: cs, rest)

/-- Read a minus sign, if there is one. -/
def readMinus : List Char → List Char × List Char
  | '-' :: rest => (['-'], rest)
  | rest => ([], rest)

/-- Read a sign, if there is one. -/
def readSign : List Char → List Char × List Char
  | '+' :: rest => (['+'], rest)
  | rest => readMinus rest

/-- Read one or more digits. -/
def readDigits : Reader (List Char) := fun input =>
  if input.takeWhile Char.isDigit = [] then none
  else some (input.takeWhile Char.isDigit, input.dropWhile Char.isDigit)

/-- Read the integer part of a number. -/
def readInt : Reader (List Char)
  | '0' :: rest => some (['0'], rest)
  | input => readDigits input

/-- Read the fraction of a number, if there is one. -/
def readFrac : Reader (List Char)
  | '.' :: rest => (readDigits rest).map fun (ds, rest) => ('.' :: ds, rest)
  | rest => some ([], rest)

/-- Read the exponent of a number, if there is one. -/
def readExp : Reader (List Char)
  | [] => some ([], [])
  | e :: rest =>
    if e = 'e' ∨ e = 'E' then
      (readDigits (readSign rest).2).map fun (ds, rest') => (e :: ((readSign rest).1 ++ ds), rest')
    else some ([], e :: rest)

/-- Read a number. -/
def readNumber : Reader Json := fun input => do
  let (int, rest) ← readInt (readMinus input).2
  let (frac, rest) ← readFrac rest
  let (exp, rest) ← readExp rest
  some (.number ((readMinus input).1 ++ (int ++ (frac ++ exp))), rest)

/-- Read a given word as a given value. -/
def readWord (word : List Char) (v : Json) : Reader Json := fun input =>
  if word <+: input then some (v, input.drop word.length) else none

/-- Read one or more items between commas up to the closing bracket. -/
def readItems {β : Type} (item : Reader β) (close : Char) : ℕ → Reader (List β)
  | 0, _ => none
  | fuel + 1, input => do
    let (v, rest) ← item (skipWs input)
    match skipWs rest with
    | [] => none
    | c :: rest =>
      if c = close then some ([v], rest)
      else if c = ',' then do
        let (vs, rest) ← readItems item close fuel rest
        some (v :: vs, rest)
      else none

/-- Read a list up to its closing bracket. -/
def readList {β : Type} (item : Reader β) (close : Char) : Reader (List β) := fun input =>
  match skipWs input with
  | [] => none
  | c :: rest => if c = close then some ([], rest) else readItems item close input.length input

/-- Read a member of an object. -/
def readMember (value : Reader Json) : Reader (List Char × Json)
  | [] => none
  | c :: rest =>
    if c = '"' then do
      let (name, rest) ← readChars rest.length rest
      match skipWs rest with
      | ':' :: rest => do
        let (v, rest) ← value (skipWs rest)
        some ((name, v), rest)
      | _ => none
    else none

/-- Read a value of bounded depth. -/
def readValue : ℕ → Reader Json
  | 0, _ => none
  | _ + 1, [] => none
  | depth + 1, c :: rest =>
    if c = '"' then (readChars rest.length rest).map fun (s, rest) => (.string s, rest)
    else if c = '[' then
      (readList (readValue depth) ']' rest).map fun (vs, rest) => (.array vs, rest)
    else if c = '{' then
      (readList (readMember (readValue depth)) '}' rest).map fun (ms, rest) => (.object ms, rest)
    else
      (readWord "null".toList .null (c :: rest)).or <|
        (readWord "true".toList (.bool true) (c :: rest)).or <|
          (readWord "false".toList (.bool false) (c :: rest)).or (readNumber (c :: rest))

/-- The value of a JSON text. -/
def decode (text : List Char) : Option Json := do
  let (v, rest) ← readValue text.length (skipWs text)
  if skipWs rest = [] then some v else none

end Json

end Common
