import VgiMask.Engine.Names
import VgiMask.Common.JsonDecoding
import VgiMask.Common.JsonWriting

/-!
# Metadata tags in JSON

The keywords and the example queries of a function are published as JSON texts that are put
together by hand: strings are escaped character by character, and the loops place the commas.
Both texts are JSON, and decoding gives back what went in.
-/

namespace VgiMask

open Common Common.Json

/-- A number in lower-case hexadecimal digits, padded with zeros to four. -/
def formatHex04 (n : ℕ) : Text :=
  let digits := Nat.toDigits 16 n
  List.replicate (4 - digits.length) '0' ++ digits

/-- What a character of a string is escaped to. -/
def escapeChar (ch : Char) : Text :=
  match ch with
  | '"' => "\\\"".toList
  | '\\' => "\\\\".toList
  | '\n' => "\\n".toList
  | '\r' => "\\r".toList
  | '\t' => "\\t".toList
  | c => if c.toNat < 0x20 then "\\u".toList ++ formatHex04 c.toNat else [c]

/-- The contents of a JSON string. -/
def jsonEscape (s : Text) : Text := s.foldl (fun out ch => out ++ escapeChar ch) []

/-- The keywords as a JSON array of strings. -/
def keywordsJson (keywords : List Text) : Text :=
  let out := keywords.zipIdx.foldl (fun out (kw, i) =>
    let out := if i > 0 then out ++ ", ".toList else out
    let out := out ++ ['"']
    let out := out ++ jsonEscape kw
    out ++ ['"']) "[".toList
  out ++ [']']

/-- The described examples as a JSON array of objects. -/
def exampleQueriesJson (examples : List (Text × Text)) : Text :=
  let out := examples.zipIdx.foldl (fun out ((description, sql), i) =>
    let out := if i > 0 then out ++ [','] else out
    let out := out ++ "\n  \x7b\"description\": \"".toList
    let out := out ++ jsonEscape description
    let out := out ++ "\", \"sql\": \"".toList
    let out := out ++ jsonEscape sql
    out ++ "\"\x7d".toList) "[".toList
  out ++ "\n]".toList

/-- The escapes of the characters in a row. -/
theorem jsonEscape_eq (s : Text) : jsonEscape s = s.flatMap escapeChar :=
  List.flatMap_eq_foldl.symm

/-- The control characters have four digits that are their code unit. -/
theorem codeUnit_formatHex04 : ∀ n < 0x20, (formatHex04 n).length = 4 ∧
    codeUnit (formatHex04 n) = some n ∧ isHigh n = false ∧ isLow n = false := by
  decide

/-- No escape starts with a quote. -/
theorem escapeChar_head (c : Char) : ∃ d t, escapeChar c = d :: t ∧ d ≠ '"' := by
  unfold escapeChar
  split
  · exact ⟨'\\', ['"'], rfl, by decide⟩
  · exact ⟨'\\', ['\\'], rfl, by decide⟩
  · exact ⟨'\\', ['n'], rfl, by decide⟩
  · exact ⟨'\\', ['r'], rfl, by decide⟩
  · exact ⟨'\\', ['t'], rfl, by decide⟩
  · rename_i hquote _ _ _ _
    split
    · exact ⟨'\\', 'u' :: formatHex04 c.toNat, rfl, by decide⟩
    · exact ⟨c, [], rfl, hquote⟩

/-- Every escape is read back as its character. -/
theorem readChar_escapeChar (c : Char) (rest : Text) :
    readChar (escapeChar c ++ rest) = some (c, rest) := by
  unfold escapeChar
  split
  · rfl
  · rfl
  · rfl
  · rfl
  · rfl
  · rename_i hquote hbackslash _ _ _
    split
    · rename_i hcontrol
      obtain ⟨hlen, hunit, hhigh, hlow⟩ := codeUnit_formatHex04 c.toNat hcontrol
      have hread := readUnit_append hlen hunit hhigh hlow rest
      rw [Char.ofNat_toNat] at hread
      exact hread
    · rename_i hprintable
      have hunescaped : isUnescaped c = true := by
        simp only [isUnescaped, Bool.and_eq_true, bne_iff_ne, decide_eq_true_eq]
        exact ⟨⟨Nat.not_lt.mp hprintable, hquote⟩, hbackslash⟩
      rw [List.singleton_append, readChar_cons_of_ne hbackslash, if_pos hunescaped]

/-- A quoted string is read back. -/
theorem readChars_jsonEscape (s rest : Text) :
    readChars (jsonEscape s ++ '"' :: rest).length (jsonEscape s ++ '"' :: rest) = some (s, rest) := by
  rw [jsonEscape_eq]
  exact readChars_quoted readChar_escapeChar escapeChar_head s rest

/-- A string between quotes. -/
def quoted (s : Text) : Text := '"' :: (jsonEscape s ++ ['"'])

/-- A quoted string is a value. -/
theorem readValue_quoted (depth : ℕ) (s rest : Text) :
    readValue (depth + 1) (skipWs (quoted s ++ rest)) = some (.string s, rest) := by
  have htext : quoted s ++ rest = '"' :: (jsonEscape s ++ '"' :: rest) := by
    rw [quoted, List.cons_append, List.append_assoc, List.singleton_append]
  rw [htext, skipWs_cons (by decide), readValue_quote, readChars_jsonEscape]
  rfl

/-- A keyword is no closing bracket. -/
theorem quoted_head (s rest : Text) :
    ∃ c after, skipWs (quoted s ++ rest) = c :: after ∧ c ≠ ']' :=
  ⟨'"', _, skipWs_cons (by decide) _, by decide⟩

/-- The text of the keywords is the quoted keywords with commas between them. -/
theorem keywordsJson_eq (keywords : List Text) :
    keywordsJson keywords = '[' :: (separated ", ".toList quoted keywords ++ [']']) := by
  have hstep : (fun (out : Text) (p : Text × ℕ) =>
      (((if p.2 > 0 then out ++ ", ".toList else out) ++ ['"']) ++ jsonEscape p.1) ++ ['"']) =
      fun out p => (if p.2 > 0 then out ++ ", ".toList else out) ++ quoted p.1 := by
    funext out p
    rw [quoted, List.append_assoc, List.append_assoc, List.singleton_append]
  change keywords.zipIdx.foldl (fun (out : Text) (p : Text × ℕ) =>
      (((if p.2 > 0 then out ++ ", ".toList else out) ++ ['"']) ++ jsonEscape p.1) ++ ['"'])
    "[".toList ++ [']'] = _
  rw [hstep, foldl_separated]
  rfl

/-- The text of the keywords is decoded to them. -/
theorem decode_keywordsJson (keywords : List Text) :
    decode (keywordsJson keywords) = some (.array (keywords.map .string)) := by
  rw [keywordsJson_eq]
  apply decode_array
  obtain ⟨depth, hdepth⟩ :
      ∃ depth, (separated ", ".toList quoted keywords ++ [']']).length = depth + 1 :=
    ⟨_, List.length_append⟩
  rw [hdepth]
  exact readList_separated (readValue_quoted depth) quoted_head (by decide : Ws [' '])
    (by decide : Ws []) (by decide) (by decide) keywords []

/-- A name and a string value of an object. -/
def memberText (m : Text × Text) : Text := quoted m.1 ++ ": ".toList ++ quoted m.2

/-- The members of a described example. -/
def exampleMembers (e : Text × Text) : List (Text × Text) :=
  [("description".toList, e.1), ("sql".toList, e.2)]

/-- A described example on a line of its own. -/
def exampleText (e : Text × Text) : Text :=
  "\n  ".toList ++ '{' :: (separated ", ".toList memberText (exampleMembers e) ++ ['}'])

/-- The object of a described example. -/
def exampleObject (e : Text × Text) : Json :=
  .object ((exampleMembers e).map fun m => (m.1, .string m.2))

/-- A member is read back. -/
theorem readMember_memberText (depth : ℕ) (m : Text × Text) (rest : Text) :
    readMember (readValue (depth + 1)) (skipWs (memberText m ++ rest)) =
      some ((m.1, .string m.2), rest) := by
  have htext : memberText m ++ rest =
      '"' :: (jsonEscape m.1 ++ '"' :: ':' :: ' ' :: (quoted m.2 ++ rest)) := by
    simp only [memberText, quoted, List.cons_append, List.append_assoc, List.nil_append]
    rfl
  rw [htext, skipWs_cons (by decide)]
  exact readMember_eq (readChars_jsonEscape m.1 _) (skipWs_cons (by decide) _)
    (readValue_quoted depth m.2 rest)

/-- A member is no closing bracket. -/
theorem memberText_head (m : Text × Text) (rest : Text) :
    ∃ c after, skipWs (memberText m ++ rest) = c :: after ∧ c ≠ '}' :=
  ⟨'"', _, skipWs_cons (by decide) _, by decide⟩

/-- A described example is read back. -/
theorem readValue_exampleText (depth : ℕ) (e : Text × Text) (rest : Text) :
    readValue (depth + 2) (skipWs (exampleText e ++ rest)) = some (exampleObject e, rest) := by
  have hlist := readList_separated (readMember_memberText depth) memberText_head
    (by decide : Ws [' ']) (by decide : Ws []) (by decide) (by decide) (exampleMembers e) rest
  rw [exampleText, List.append_assoc, skipWs_append (by decide), List.cons_append,
    skipWs_cons (by decide), readValue_brace, List.append_assoc]
  change (readList _ '}' (separated [',', ' '] memberText (exampleMembers e) ++
    ([] ++ '}' :: rest))).map _ = _
  rw [hlist]
  rfl

/-- A described example is no closing bracket. -/
theorem exampleText_head (e : Text × Text) (rest : Text) :
    ∃ c after, skipWs (exampleText e ++ rest) = c :: after ∧ c ≠ ']' := by
  refine ⟨'{', separated ", ".toList memberText (exampleMembers e) ++ ['}'] ++ rest, ?_, by decide⟩
  rw [exampleText, List.append_assoc, skipWs_append (by decide), List.cons_append,
    skipWs_cons (by decide)]

/-- The names of the members have no character to escape. -/
theorem exampleText_eq (e : Text × Text) :
    exampleText e = "\n  \x7b\"description\": \"".toList ++ (jsonEscape e.1 ++
      ("\", \"sql\": \"".toList ++ (jsonEscape e.2 ++ "\"\x7d".toList))) := by
  have hdescription : jsonEscape "description".toList = "description".toList := by decide
  have hsql : jsonEscape "sql".toList = "sql".toList := by decide
  simp only [exampleText, exampleMembers, separated, memberText, quoted, hdescription, hsql,
    List.flatMap_cons, List.flatMap_nil, List.append_assoc, List.cons_append, List.nil_append]
  rfl

/-- The text of the examples is the described examples with commas between them. -/
theorem exampleQueriesJson_eq (examples : List (Text × Text)) :
    exampleQueriesJson examples = '[' :: (separated [','] exampleText examples ++ "\n]".toList) := by
  have hstep : (fun (out : Text) (p : (Text × Text) × ℕ) =>
      (((((if p.2 > 0 then out ++ [','] else out) ++ "\n  \x7b\"description\": \"".toList) ++
        jsonEscape p.1.1) ++ "\", \"sql\": \"".toList) ++ jsonEscape p.1.2) ++ "\"\x7d".toList) =
      fun out p => (if p.2 > 0 then out ++ [','] else out) ++ exampleText p.1 := by
    funext out p
    rw [exampleText_eq]
    simp only [List.append_assoc]
  change examples.zipIdx.foldl (fun (out : Text) (p : (Text × Text) × ℕ) =>
      (((((if p.2 > 0 then out ++ [','] else out) ++ "\n  \x7b\"description\": \"".toList) ++
        jsonEscape p.1.1) ++ "\", \"sql\": \"".toList) ++ jsonEscape p.1.2) ++ "\"\x7d".toList)
    "[".toList ++ "\n]".toList = _
  rw [hstep, foldl_separated]
  rfl

/-- The text of the examples is decoded to their objects. -/
theorem decode_exampleQueriesJson (examples : List (Text × Text)) :
    decode (exampleQueriesJson examples) = some (.array (examples.map exampleObject)) := by
  rw [exampleQueriesJson_eq]
  apply decode_array
  obtain ⟨depth, hdepth⟩ :
      ∃ depth, (separated [','] exampleText examples ++ "\n]".toList).length = depth + 2 :=
    ⟨_, List.length_append⟩
  rw [hdepth]
  exact readList_separated (readValue_exampleText depth) exampleText_head (by decide : Ws [])
    (by decide : Ws ['\n']) (by decide) (by decide) examples []

/-- The keywords and the examples are published as JSON texts that are decoded to the array of
the keywords and to an array of objects with a description and a query each. -/
theorem metadata_decodes :
    (∀ keywords : List Text,
        TextOf (.array (keywords.map .string)) (keywordsJson keywords) ∧
          decode (keywordsJson keywords) = some (.array (keywords.map .string))) ∧
      ∀ examples : List (Text × Text),
        TextOf (.array (examples.map fun e => .object
            [("description".toList, .string e.1), ("sql".toList, .string e.2)]))
          (exampleQueriesJson examples) ∧
        decode (exampleQueriesJson examples) =
          some (.array (examples.map fun e => .object
            [("description".toList, .string e.1), ("sql".toList, .string e.2)])) := by
  constructor
  · intro keywords
    have hdecode := decode_keywordsJson keywords
    exact ⟨textOf_of_decode hdecode, hdecode⟩
  · intro examples
    have hdecode := decode_exampleQueriesJson examples
    exact ⟨textOf_of_decode hdecode, hdecode⟩

example : keywordsJson ["a\"b".toList, [], "\\\t\x01é".toList] =
    "[\"a\\\"b\", \"\", \"\\\\\\t\\u0001é\"]".toList := by decide

end VgiMask
