import VgiMask.Common.Json

/-!
# Texts that are read back

A writer puts together a text from the texts of its parts. A string is read back when every
character is, and a list when every item is, whatever follows it; the items may be written by a
loop that puts a separator before all but the first.
-/

namespace Common

/-- The texts of the items with a separator between them. -/
def separated {γ : Type} (sep : List Char) (text : γ → List Char) : List γ → List Char
  | [] => []
  | x :: xs => text x ++ xs.flatMap fun y => sep ++ text y

/-- Items that write something write at least as many characters. -/
theorem length_le_flatMap {γ : Type} {text : γ → List Char} (h : ∀ x, text x ≠ []) (xs : List γ) :
    xs.length ≤ (xs.flatMap text).length := by
  induction xs with
  | nil => exact Nat.le_refl 0
  | cons x xs ih =>
    have hx := List.length_pos_iff.mpr (h x)
    rw [List.flatMap_cons, List.length_append, List.length_cons]
    omega

section Loop

variable {γ : Type} (sep : List Char) (text : γ → List Char)

/-- From the second item on, the loop writes the separator before every item. -/
theorem foldl_separated_tail (xs : List γ) (out : List Char) (n : ℕ) :
    (xs.zipIdx (n + 1)).foldl (fun out p => (if p.2 > 0 then out ++ sep else out) ++ text p.1) out =
      out ++ xs.flatMap fun y => sep ++ text y := by
  induction xs generalizing out n with
  | nil => exact (List.append_nil out).symm
  | cons x xs ih =>
    rw [List.zipIdx_cons, List.foldl_cons, if_pos (Nat.succ_pos n), ih, List.flatMap_cons]
    simp only [List.append_assoc]

/-- The loop writes the separated items. -/
theorem foldl_separated (xs : List γ) (out : List Char) :
    xs.zipIdx.foldl (fun out p => (if p.2 > 0 then out ++ sep else out) ++ text p.1) out =
      out ++ separated sep text xs := by
  cases xs with
  | nil => exact (List.append_nil out).symm
  | cons x xs =>
    rw [List.zipIdx_cons, List.foldl_cons, if_neg (Nat.lt_irrefl 0), foldl_separated_tail,
      separated, List.append_assoc]

end Loop

namespace Json

/-- Whitespace in front is skipped. -/
theorem skipWs_append {w : List Char} (hw : Ws w) (input : List Char) :
    skipWs (w ++ input) = skipWs input :=
  List.dropWhile_append_of_pos hw

/-- Nothing is skipped in front of any other character. -/
theorem skipWs_cons {c : Char} (hc : isWs c = false) (rest : List Char) :
    skipWs (c :: rest) = c :: rest :=
  List.dropWhile_cons_of_neg (by rw [hc]; exact Bool.false_ne_true)

/-- A character that starts no escape stands for itself or is refused. -/
theorem readChar_cons_of_ne {c : Char} (hc : c ≠ '\\') (rest : List Char) :
    readChar (c :: rest) = if isUnescaped c then some (c, rest) else none := by
  unfold readChar
  exact if_neg hc

/-- Four digits of a unit that is no surrogate are read as its character. -/
theorem readUnit_append {digits : List Char} {u : ℕ} (hlen : digits.length = 4)
    (h : codeUnit digits = some u) (hhigh : isHigh u = false) (hlow : isLow u = false)
    (rest : List Char) : readUnit (digits ++ rest) = some (Char.ofNat u, rest) := by
  rw [readUnit, List.take_left' hlen, h]
  change (if isHigh u then _ else if isLow u then none else
    some (Char.ofNat u, (digits ++ rest).drop 4)) = _
  rw [hhigh, hlow, List.drop_left' hlen]
  rfl

section Strings

variable {encode : Char → List Char}

/-- A string is read back when its characters are and none of them starts with a quote. -/
theorem readChars_flatMap (hread : ∀ c rest, readChar (encode c ++ rest) = some (c, rest))
    (hquote : ∀ c, ∃ d t, encode c = d :: t ∧ d ≠ '"') (s rest : List Char) {fuel : ℕ}
    (hfuel : s.length < fuel) : readChars fuel (s.flatMap encode ++ '"' :: rest) = some (s, rest) := by
  induction s generalizing fuel with
  | nil =>
    obtain ⟨n, rfl⟩ := Nat.exists_eq_succ_of_ne_zero (Nat.ne_of_gt hfuel)
    rfl
  | cons c s ih =>
    obtain ⟨n, rfl⟩ := Nat.exists_eq_succ_of_ne_zero (Nat.ne_of_gt (Nat.zero_lt_of_lt hfuel))
    obtain ⟨d, t, hd, hne⟩ := hquote c
    have hfirst := hread c (s.flatMap encode ++ '"' :: rest)
    rw [hd, List.cons_append] at hfirst
    rw [List.flatMap_cons, List.append_assoc, hd, List.cons_append, readChars, if_neg hne, hfirst]
    change (readChars n (s.flatMap encode ++ '"' :: rest) >>= _) = _
    rw [ih (Nat.lt_of_succ_lt_succ hfuel)]
    rfl

/-- A string between quotes is read back, with the fuel that the reader of a value gives. -/
theorem readChars_quoted (hread : ∀ c rest, readChar (encode c ++ rest) = some (c, rest))
    (hquote : ∀ c, ∃ d t, encode c = d :: t ∧ d ≠ '"') (s rest : List Char) :
    readChars (s.flatMap encode ++ '"' :: rest).length (s.flatMap encode ++ '"' :: rest) =
      some (s, rest) := by
  apply readChars_flatMap hread hquote
  have hne : ∀ c, encode c ≠ [] := by
    intro c
    obtain ⟨d, t, hd, -⟩ := hquote c
    rw [hd]
    exact List.cons_ne_nil d t
  have hle := length_le_flatMap hne s
  rw [List.length_append, List.length_cons]
  omega

end Strings

section Lists

variable {β γ : Type} {item : Reader β} {text : γ → List Char} {v : γ → β} {w w' : List Char}
  {close : Char}

/-- An item before the closing bracket is the last. -/
theorem readItems_last {fuel : ℕ} {input after rest : List Char} {b : β}
    (hitem : item (skipWs input) = some (b, after)) (hafter : skipWs after = close :: rest) :
    readItems item close (fuel + 1) input = some ([b], rest) := by
  rw [readItems, hitem, Option.bind_eq_bind, Option.bind_some]
  dsimp only
  rw [hafter]
  exact if_pos rfl

/-- An item before a comma is followed by the items after the comma. -/
theorem readItems_comma {fuel : ℕ} {input after next : List Char} {b : β} (hcomma : close ≠ ',')
    (hitem : item (skipWs input) = some (b, after)) (hafter : skipWs after = ',' :: next) :
    readItems item close (fuel + 1) input =
      (readItems item close fuel next).map fun p => (b :: p.1, p.2) := by
  rw [readItems, hitem, Option.bind_eq_bind, Option.bind_some]
  dsimp only
  rw [hafter]
  dsimp only
  rw [if_neg hcomma.symm, if_pos rfl]
  cases readItems item close fuel next <;> rfl

/-- Whitespace before an item is skipped. -/
theorem readItems_append {fuel : ℕ} (hw : Ws w) (input : List Char) :
    readItems item close fuel (w ++ input) = readItems item close fuel input := by
  cases fuel with
  | zero => rfl
  | succ fuel => rw [readItems, readItems, skipWs_append hw]

/-- Items are read back up to the closing bracket when each is, whatever follows it. -/
theorem readItems_separated (hitem : ∀ x rest, item (skipWs (text x ++ rest)) = some (v x, rest))
    (hw : Ws w) (hw' : Ws w') (hclose : isWs close = false) (hcomma : close ≠ ',') (x : γ)
    (xs : List γ) (rest : List Char) {fuel : ℕ} (hfuel : xs.length < fuel) :
    readItems item close fuel (separated (',' :: w) text (x :: xs) ++ (w' ++ close :: rest)) =
      some (v x :: xs.map v, rest) := by
  induction xs generalizing x fuel with
  | nil =>
    obtain ⟨n, rfl⟩ := Nat.exists_eq_succ_of_ne_zero (Nat.ne_of_gt hfuel)
    rw [separated, List.flatMap_nil, List.append_nil]
    exact readItems_last (hitem x _) (by rw [skipWs_append hw', skipWs_cons hclose])
  | cons y ys ih =>
    obtain ⟨n, rfl⟩ := Nat.exists_eq_succ_of_ne_zero (Nat.ne_of_gt (Nat.zero_lt_of_lt hfuel))
    have htail : separated (',' :: w) text (x :: y :: ys) ++ (w' ++ close :: rest) =
        text x ++ ',' :: (w ++ (separated (',' :: w) text (y :: ys) ++ (w' ++ close :: rest))) := by
      rw [separated, separated, List.flatMap_cons]
      simp only [List.append_assoc, List.cons_append]
    rw [htail, readItems_comma hcomma (hitem x _) (skipWs_cons (by decide) _), readItems_append hw,
      ih y (Nat.lt_of_succ_lt_succ hfuel)]
    rfl

/-- A list that does not start with its closing bracket has items. -/
theorem readList_of_ne {input after : List Char} {c : Char} (hskip : skipWs input = c :: after)
    (hne : c ≠ close) : readList item close input = readItems item close input.length input := by
  rw [readList, hskip]
  exact if_neg hne

/-- A list is read back when its items are and none of them starts with the closing bracket. -/
theorem readList_separated (hitem : ∀ x rest, item (skipWs (text x ++ rest)) = some (v x, rest))
    (hfirst : ∀ x rest, ∃ c after, skipWs (text x ++ rest) = c :: after ∧ c ≠ close)
    (hw : Ws w) (hw' : Ws w') (hclose : isWs close = false) (hcomma : close ≠ ',') (xs : List γ)
    (rest : List Char) :
    readList item close (separated (',' :: w) text xs ++ (w' ++ close :: rest)) =
      some (xs.map v, rest) := by
  cases xs with
  | nil =>
    rw [separated, List.nil_append, readList, skipWs_append hw', skipWs_cons hclose]
    exact if_pos rfl
  | cons x xs =>
    have hseparators := length_le_flatMap (fun y => List.cons_ne_nil ',' (w ++ text y)) xs
    have hfuel : xs.length <
        (separated (',' :: w) text (x :: xs) ++ (w' ++ close :: rest)).length := by
      rw [separated, List.length_append, List.length_append, List.length_append, List.length_cons]
      simp only [List.cons_append]
      omega
    obtain ⟨c, after, hskip, hne⟩ := hfirst x
      ((xs.flatMap fun y => (',' :: w) ++ text y) ++ (w' ++ close :: rest))
    rw [← List.append_assoc, ← separated] at hskip
    rw [readList_of_ne hskip hne]
    exact readItems_separated hitem hw hw' hclose hcomma x xs rest hfuel

end Lists

/-- A quote opens a string. -/
theorem readValue_quote (depth : ℕ) (rest : List Char) :
    readValue (depth + 1) ('"' :: rest) =
      (readChars rest.length rest).map fun p => (.string p.1, p.2) := by
  rw [readValue, if_pos rfl]

/-- A square bracket opens an array. -/
theorem readValue_bracket (depth : ℕ) (rest : List Char) :
    readValue (depth + 1) ('[' :: rest) =
      (readList (readValue depth) ']' rest).map fun p => (.array p.1, p.2) := by
  rw [readValue, if_neg (by decide), if_pos rfl]

/-- A curly bracket opens an object. -/
theorem readValue_brace (depth : ℕ) (rest : List Char) :
    readValue (depth + 1) ('{' :: rest) =
      (readList (readMember (readValue depth)) '}' rest).map fun p => (.object p.1, p.2) := by
  rw [readValue, if_neg (by decide), if_neg (by decide), if_pos rfl]

/-- A name, a colon and a value are a member. -/
theorem readMember_eq {value : Reader Json} {name rest after next rest' : List Char} {v : Json}
    (hname : readChars rest.length rest = some (name, after)) (hcolon : skipWs after = ':' :: next)
    (hvalue : value (skipWs next) = some (v, rest')) :
    readMember value ('"' :: rest) = some ((name, v), rest') := by
  rw [readMember, if_pos rfl, hname, Option.bind_eq_bind, Option.bind_some]
  dsimp only
  rw [hcolon]
  change (value (skipWs next) >>= _) = _
  rw [hvalue]
  rfl

/-- A text that is an array up to its end is decoded to it. -/
theorem decode_array {rest : List Char} {vs : List Json}
    (h : readList (readValue rest.length) ']' rest = some (vs, [])) :
    decode ('[' :: rest) = some (.array vs) := by
  rw [decode, skipWs_cons (by decide), List.length_cons, readValue_bracket, h]
  rfl

end Json

end Common
