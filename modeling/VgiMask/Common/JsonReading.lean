import VgiMask.Common.JsonDecoding
import VgiMask.Common.JsonWriting

/-!
# The decoder reads every text

A reader meets the text of an item in front of others, and must stop where the item ends. Strings,
lists and words show their ends; a number ends where no character could continue it. With that the
decoder reads every JSON text of a value as it, so no text has two values.
-/

namespace Common

namespace Json

/-- No digit follows. -/
def EndsDigits (rest : List Char) : Prop := ∀ c ∈ rest.head?, c.isDigit = false

/-- Nothing that follows could continue a number. -/
def EndsNumber (rest : List Char) : Prop :=
  ∀ c ∈ rest.head?, c.isDigit = false ∧ c ≠ '.' ∧ c ≠ 'e' ∧ c ≠ 'E'

section Ends

variable {rest : List Char}

/-- Where a number ends its digits end. -/
theorem EndsNumber.digits (h : EndsNumber rest) : EndsDigits rest := fun c hc => (h c hc).1

/-- Nothing follows at the end of a text. -/
theorem endsNumber_nil : EndsNumber [] := by
  intro c hc
  cases hc

/-- A character that is not in a number ends it. -/
theorem endsNumber_cons {c : Char} (hdigit : c.isDigit = false) (hdot : c ≠ '.') (he : c ≠ 'e')
    (hE : c ≠ 'E') : EndsNumber (c :: rest) := by
  intro d hd
  obtain rfl := Option.some.inj hd
  exact ⟨hdigit, hdot, he, hE⟩

/-- Whitespace is none of the characters of numbers. -/
theorem endsNumber_of_isWs {c : Char} (h : isWs c = true) : EndsNumber (c :: rest) := by
  simp only [isWs, Bool.or_eq_true, beq_iff_eq] at h
  rcases h with ((rfl | rfl) | rfl) | rfl <;>
    exact endsNumber_cons (by decide) (by decide) (by decide) (by decide)

/-- Whitespace ends a number when what follows it does. -/
theorem endsNumber_append {w : List Char} (hw : Ws w) (h : EndsNumber rest) :
    EndsNumber (w ++ rest) := by
  cases w with
  | nil => exact h
  | cons c w => exact endsNumber_of_isWs (hw c List.mem_cons_self)

end Ends

section Strings

variable {rest : List Char}

/-- A code unit has four digits. -/
theorem length_of_codeUnit {digits : List Char} {u : ℕ} (h : codeUnit digits = some u) :
    digits.length = 4 := by
  unfold codeUnit at h
  split at h
  · rfl
  · cases h

/-- Two surrogate units are read as the character of the pair. -/
theorem readUnit_pair {digits digits' : List Char} {high low : ℕ} (h : codeUnit digits = some high)
    (h' : codeUnit digits' = some low) (hhigh : isHigh high = true) (hlow : isLow low = true) :
    readUnit (digits ++ '\\' :: 'u' :: (digits' ++ rest)) = some (combine high low, rest) := by
  have hlen := length_of_codeUnit h
  have hlen' := length_of_codeUnit h'
  rw [readUnit, List.take_left' hlen, h, Option.bind_eq_bind, Option.bind_some, if_pos hhigh,
    List.drop_left' hlen]
  change ((codeUnit ((digits' ++ rest).take 4)).bind fun low =>
    if isLow low then some (combine high low, (digits' ++ rest).drop 4) else none) = _
  rw [List.take_left' hlen', h', Option.bind_some, if_pos hlow, List.drop_left' hlen']

/-- Every text of a character is read as it. -/
theorem readChar_append {c : Char} {t : List Char} (h : CharText c t) (rest : List Char) :
    readChar (t ++ rest) = some (c, rest) := by
  cases h with
  | unescaped h =>
    have hne : c ≠ '\\' := by
      rintro rfl
      exact absurd h (by decide)
    rw [List.singleton_append, readChar_cons_of_ne hne, if_pos h]
  | short h =>
    rename_i e
    have hne : e ≠ 'u' := by
      rintro rfl
      cases h
    change (if e = 'u' then readUnit rest else (shortEscape e).map fun c => (c, rest)) = _
    rw [if_neg hne, h]
    rfl
  | unit h hhigh hlow => exact readUnit_append (length_of_codeUnit h) h hhigh hlow rest
  | pair h h' hhigh hlow =>
    rw [List.append_assoc, List.cons_append, List.cons_append]
    exact readUnit_pair h h' hhigh hlow

/-- No text of a character starts with a quote. -/
theorem charText_head {c : Char} {t : List Char} (h : CharText c t) : ∃ d t', t = d :: t' ∧ d ≠ '"' := by
  cases h with
  | unescaped h =>
    refine ⟨c, [], rfl, ?_⟩
    rintro rfl
    exact absurd h (by decide)
  | short => exact ⟨'\\', _, rfl, by decide⟩
  | unit => exact ⟨'\\', _, rfl, by decide⟩
  | pair => exact ⟨'\\', _, rfl, by decide⟩

/-- Every text of the characters is read up to the quote. -/
theorem readChars_append {cs t : List Char} (h : Chars cs t) (rest : List Char) {fuel : ℕ}
    (hfuel : t.length < fuel) : readChars fuel (t ++ '"' :: rest) = some (cs, rest) := by
  induction h generalizing fuel with
  | nil =>
    obtain ⟨n, rfl⟩ := Nat.exists_eq_succ_of_ne_zero (Nat.ne_of_gt hfuel)
    rfl
  | cons hc _ ih =>
    rename_i t ts _
    obtain ⟨d, t', rfl, hne⟩ := charText_head hc
    rw [List.length_append, List.length_cons] at hfuel
    obtain ⟨n, rfl⟩ := Nat.exists_eq_succ_of_ne_zero (Nat.ne_of_gt (Nat.zero_lt_of_lt hfuel))
    have hfirst := readChar_append hc (ts ++ '"' :: rest)
    rw [List.cons_append] at hfirst
    rw [List.append_assoc, List.cons_append, readChars, if_neg hne, hfirst]
    change (readChars n (ts ++ '"' :: rest) >>= _) = _
    rw [ih (by omega)]
    rfl

end Strings

section Numbers

variable {t rest : List Char}

/-- Digits are read up to where they end. -/
theorem readDigits_append (h : Digits t) (hrest : EndsDigits rest) :
    readDigits (t ++ rest) = some (t, rest) := by
  have htake : rest.takeWhile Char.isDigit = [] ∧ rest.dropWhile Char.isDigit = rest := by
    cases rest with
    | nil => exact ⟨rfl, rfl⟩
    | cons c rest => simp [hrest c rfl]
  rw [readDigits, List.takeWhile_append_of_pos h.2, List.dropWhile_append_of_pos h.2, htake.1, htake.2,
    List.append_nil, if_neg h.1]

/-- Digits start with a digit. -/
theorem digits_head (h : Digits t) : ∃ d ds, t = d :: ds ∧ d.isDigit = true := by
  obtain ⟨d, ds, rfl⟩ := List.exists_cons_of_ne_nil h.1
  exact ⟨d, ds, rfl, h.2 d List.mem_cons_self⟩

/-- An integer part starts with a digit. -/
theorem intPart_head (h : IntPart t) : ∃ d ds, t = d :: ds ∧ d.isDigit = true := by
  rcases h with rfl | ⟨d, ds, rfl, hd, -, -⟩
  · exact ⟨'0', [], rfl, by decide⟩
  · exact ⟨d, ds, rfl, hd⟩

/-- An integer part is read up to where its digits end. -/
theorem readInt_append (h : IntPart t) (hrest : EndsDigits rest) :
    readInt (t ++ rest) = some (t, rest) := by
  rcases h with rfl | ⟨d, ds, rfl, hd, hzero, hds⟩
  · rfl
  · have hdigits : Digits (d :: ds) :=
      ⟨List.cons_ne_nil d ds, List.forall_mem_cons.mpr ⟨hd, hds⟩⟩
    have hread := readDigits_append hdigits hrest
    rw [List.cons_append] at hread ⊢
    unfold readInt
    split
    · rename_i heq
      exact absurd (List.cons.inj heq).1 hzero
    · exact hread

/-- A fraction is read up to where a number could continue with an exponent. -/
theorem readFrac_append (h : FracPart t) (hdigits : EndsDigits rest) (hdot : ∀ c ∈ rest.head?, c ≠ '.') :
    readFrac (t ++ rest) = some (t, rest) := by
  rcases h with rfl | ⟨ds, rfl, hds⟩
  · rw [List.nil_append]
    unfold readFrac
    split
    · exact absurd rfl (hdot '.' rfl)
    · rfl
  · rw [List.cons_append, readFrac, readDigits_append hds hdigits]
    rfl

/-- A minus sign is read if there is one. -/
theorem readMinus_append {minus : List Char} (h : minus = [] ∨ minus = ['-'])
    (hrest : ∀ c ∈ rest.head?, c ≠ '-') : readMinus (minus ++ rest) = (minus, rest) := by
  rcases h with rfl | rfl
  · rw [List.nil_append]
    unfold readMinus
    split
    · exact absurd rfl (hrest '-' rfl)
    · rfl
  · rfl

/-- A sign is read if there is one. -/
theorem readSign_append {sign : List Char} (h : sign = [] ∨ sign = ['+'] ∨ sign = ['-'])
    (hrest : ∀ c ∈ rest.head?, c ≠ '+' ∧ c ≠ '-') : readSign (sign ++ rest) = (sign, rest) := by
  rcases h with rfl | rfl | rfl
  · rw [List.nil_append]
    unfold readSign
    split
    · exact absurd rfl (hrest '+' rfl).1
    · exact readMinus_append (.inl rfl) fun c hc => (hrest c hc).2
  · rfl
  · rfl

/-- A digit is no sign. -/
theorem ne_sign_of_isDigit {c : Char} (h : c.isDigit = true) : c ≠ '+' ∧ c ≠ '-' := by
  constructor <;>
  · rintro rfl
    exact absurd h (by decide)

/-- An exponent is read up to where its digits end. -/
theorem readExp_append (h : ExpPart t) (hrest : EndsNumber rest) : readExp (t ++ rest) = some (t, rest) := by
  rcases h with rfl | ⟨e, sign, ds, rfl, he, hsign, hds⟩
  · cases rest with
    | nil => rfl
    | cons c rest =>
      obtain ⟨-, -, he, hE⟩ := hrest c rfl
      rw [List.nil_append, readExp, if_neg (not_or.mpr ⟨he, hE⟩)]
  · obtain ⟨d, ds', hd, hdigit⟩ := digits_head hds
    have hnext : ∀ c ∈ (ds ++ rest).head?, c ≠ '+' ∧ c ≠ '-' := by
      intro c hc
      rw [hd] at hc
      obtain rfl := Option.some.inj hc
      exact ne_sign_of_isDigit hdigit
    rw [List.cons_append, List.append_assoc, readExp, if_pos he, readSign_append hsign hnext,
      readDigits_append hds hrest.digits]
    rfl

/-- An exponent, or what ends a number, continues neither an integer part nor a fraction. -/
theorem expPart_append_ends (h : ExpPart t) (hrest : EndsNumber rest) :
    EndsDigits (t ++ rest) ∧ ∀ c ∈ (t ++ rest).head?, c ≠ '.' := by
  rcases h with rfl | ⟨e, sign, ds, rfl, he, -, -⟩
  · exact ⟨hrest.digits, fun c hc => (hrest c hc).2.1⟩
  · constructor
    · intro c hc
      obtain rfl := Option.some.inj hc
      rcases he with rfl | rfl <;> decide
    · intro c hc
      obtain rfl := Option.some.inj hc
      rcases he with rfl | rfl <;> decide

/-- A fraction in front of what continues no digits continues none. -/
theorem fracPart_append_ends (h : FracPart t) (hrest : EndsDigits rest) : EndsDigits (t ++ rest) := by
  rcases h with rfl | ⟨ds, rfl, -⟩
  · exact hrest
  · intro c hc
    obtain rfl := Option.some.inj hc
    decide

/-- A number is read up to where it ends. -/
theorem readNumber_append (h : Number t) (hrest : EndsNumber rest) :
    readNumber (t ++ rest) = some (.number t, rest) := by
  obtain ⟨minus, int, frac, exp, rfl, hminus, hint, hfrac, hexp⟩ := h
  obtain ⟨hdigits, hdot⟩ := expPart_append_ends hexp hrest
  obtain ⟨d, ds, hd, hdigit⟩ := intPart_head hint
  have hnext : ∀ c ∈ (int ++ (frac ++ (exp ++ rest))).head?, c ≠ '-' := by
    intro c hc
    rw [hd] at hc
    obtain rfl := Option.some.inj hc
    exact (ne_sign_of_isDigit hdigit).2
  simp only [List.append_assoc]
  rw [readNumber, readMinus_append hminus hnext]
  dsimp only
  rw [readInt_append hint (fracPart_append_ends hfrac hdigits), Option.bind_eq_bind, Option.bind_some]
  dsimp only
  rw [readFrac_append hfrac hdigits hdot, Option.bind_some]
  dsimp only
  rw [readExp_append hexp hrest, Option.bind_some]

/-- A number starts with a minus sign or a digit. -/
theorem number_head (h : Number t) : ∃ c t', t = c :: t' ∧ (c = '-' ∨ c.isDigit = true) := by
  obtain ⟨minus, int, frac, exp, rfl, hminus, hint, -, -⟩ := h
  rcases hminus with rfl | rfl
  · obtain ⟨d, ds, rfl, hdigit⟩ := intPart_head hint
    exact ⟨d, _, rfl, .inr hdigit⟩
  · exact ⟨'-', _, rfl, .inl rfl⟩

end Numbers

section Heads

variable {t : List Char}

/-- The first character of a value is neither whitespace nor a closing bracket. -/
theorem value_head {v : Json} (h : Value v t) :
    ∃ c t', t = c :: t' ∧ isWs c = false ∧ c ≠ ']' := by
  cases h with
  | null => exact ⟨'n', _, rfl, by decide, by decide⟩
  | true => exact ⟨'t', _, rfl, by decide, by decide⟩
  | false => exact ⟨'f', _, rfl, by decide, by decide⟩
  | number h =>
    obtain ⟨c, t', rfl, rfl | hdigit⟩ := number_head h
    · exact ⟨'-', t', rfl, by decide, by decide⟩
    · refine ⟨c, t', rfl, ?_, ?_⟩
      · by_contra hws
        have hends : EndsNumber (c :: t') := endsNumber_of_isWs (Bool.not_eq_false _ ▸ hws)
        exact Bool.noConfusion (hdigit.symm.trans (hends.digits c rfl))
      · rintro rfl
        exact absurd hdigit (by decide)
  | string => exact ⟨'"', _, rfl, by decide, by decide⟩
  | emptyArray => exact ⟨'[', _, rfl, by decide, by decide⟩
  | array => exact ⟨'[', _, rfl, by decide, by decide⟩
  | emptyObject => exact ⟨'{', _, rfl, by decide, by decide⟩
  | object => exact ⟨'{', _, rfl, by decide, by decide⟩

/-- A member starts with a quote. -/
theorem member_head {m : List Char × Json} (h : Member Value m t) :
    ∃ c t', t = c :: t' ∧ isWs c = false ∧ c ≠ '}' := by
  cases h with
  | mk => exact ⟨'"', _, rfl, by decide, by decide⟩

end Heads

section Lists

variable {β : Type} {Item : β → List Char → Prop} {item : Reader β} {close : Char} {n : ℕ}

/-- The texts of up to `n` characters are read, whatever ends them. -/
def ReadsUpTo (item : Reader β) (Item : β → List Char → Prop) (n : ℕ) : Prop :=
  ∀ v t rest, Item v t → t.length ≤ n → EndsNumber rest → item (t ++ rest) = some (v, rest)

/-- No text of an item starts with whitespace or the closing bracket. -/
def Opens (Item : β → List Char → Prop) (close : Char) : Prop :=
  ∀ v t, Item v t → ∃ c t', t = c :: t' ∧ isWs c = false ∧ c ≠ close

/-- Whitespace before an item is skipped, and nothing of the item. -/
theorem Opens.skipWs {v : β} {w t : List Char} (hopens : Opens Item close) (hw : Ws w)
    (hv : Item v t) (rest : List Char) : skipWs (w ++ (t ++ rest)) = t ++ rest := by
  obtain ⟨c, t', rfl, hc, -⟩ := hopens v t hv
  rw [skipWs_append hw, List.cons_append, skipWs_cons hc]

/-- Items between commas are read up to the closing bracket. -/
theorem readItems_complete (hitem : ReadsUpTo item Item n) (hopens : Opens Item close)
    (hclose : isWs close = false) (hcomma : close ≠ ',') (hends : ∀ rest, EndsNumber (close :: rest))
    {vs : List β} {t : List Char} (h : CommaList Item vs t) (rest : List Char) (hn : t.length ≤ n)
    {fuel : ℕ} (hfuel : t.length < fuel) :
    readItems item close fuel (t ++ close :: rest) = some (vs, rest) := by
  induction h generalizing fuel with
  | single hw hv hw' =>
    rename_i v w t w'
    obtain ⟨m, rfl⟩ := Nat.exists_eq_succ_of_ne_zero (Nat.ne_of_gt (Nat.zero_lt_of_lt hfuel))
    simp only [List.length_append] at hn
    simp only [List.append_assoc]
    have hlast : item (skipWs (w ++ (t ++ (w' ++ close :: rest)))) = some (v, w' ++ close :: rest) := by
      rw [hopens.skipWs hw hv]
      exact hitem v t _ hv (by omega) (endsNumber_append hw' (hends rest))
    exact readItems_last hlast (by rw [skipWs_append hw', skipWs_cons hclose])
  | cons hw hv hw' hvs ih =>
    rename_i v vs w t w' ts
    obtain ⟨m, rfl⟩ := Nat.exists_eq_succ_of_ne_zero (Nat.ne_of_gt (Nat.zero_lt_of_lt hfuel))
    simp only [List.length_append, List.length_cons] at hn hfuel
    simp only [List.append_assoc, List.cons_append]
    have hends' : EndsNumber (w' ++ ',' :: (ts ++ close :: rest)) :=
      endsNumber_append hw' (endsNumber_cons (by decide) (by decide) (by decide) (by decide))
    have hfirst : item (skipWs (w ++ (t ++ (w' ++ ',' :: (ts ++ close :: rest))))) =
        some (v, w' ++ ',' :: (ts ++ close :: rest)) := by
      rw [hopens.skipWs hw hv]
      exact hitem v t _ hv (by omega) hends'
    have hafter : skipWs (w' ++ ',' :: (ts ++ close :: rest)) = ',' :: (ts ++ close :: rest) := by
      rw [skipWs_append hw', skipWs_cons (by decide)]
    rw [readItems_comma hcomma hfirst hafter, ih (by omega) (by omega)]
    rfl

/-- The first item of a list is no closing bracket. -/
theorem commaList_head (hopens : Opens Item close) {vs : List β} {t : List Char}
    (h : CommaList Item vs t) (rest : List Char) :
    ∃ c after, skipWs (t ++ rest) = c :: after ∧ c ≠ close := by
  have hfirst : ∃ v w t' after, Ws w ∧ Item v t' ∧ t = w ++ (t' ++ after) := by
    cases h with
    | single hw hv => exact ⟨_, _, _, _, hw, hv, rfl⟩
    | cons hw hv => exact ⟨_, _, _, _, hw, hv, rfl⟩
  obtain ⟨v, w, t', after, hw, hv, rfl⟩ := hfirst
  obtain ⟨c, t'', rfl, -, hne⟩ := hopens v t' hv
  refine ⟨c, t'' ++ (after ++ rest), ?_, hne⟩
  rw [List.append_assoc, List.append_assoc, hopens.skipWs hw hv, List.cons_append]

/-- A list with items is read up to its closing bracket. -/
theorem readList_complete (hitem : ReadsUpTo item Item n) (hopens : Opens Item close)
    (hclose : isWs close = false) (hcomma : close ≠ ',') (hends : ∀ rest, EndsNumber (close :: rest))
    {vs : List β} {t : List Char} (h : CommaList Item vs t) (rest : List Char) (hn : t.length ≤ n) :
    readList item close (t ++ close :: rest) = some (vs, rest) := by
  obtain ⟨c, after, hskip, hne⟩ := commaList_head hopens h (close :: rest)
  rw [readList_of_ne hskip hne]
  apply readItems_complete hitem hopens hclose hcomma hends h rest hn
  simp

/-- A list without items is read up to its closing bracket. -/
theorem readList_empty (item : Reader β) {w : List Char} (hw : Ws w) (hclose : isWs close = false)
    (rest : List Char) : readList item close (w ++ close :: rest) = some ([], rest) := by
  rw [readList, skipWs_append hw, skipWs_cons hclose]
  exact if_pos rfl

end Lists

section Values

variable {n : ℕ}

/-- Members are read when values are. -/
theorem readMember_complete {value : Reader Json} (hvalue : ReadsUpTo value Value n) :
    ReadsUpTo (readMember value) (Member Value) n := by
  intro m t rest h hn hends
  cases h with
  | mk hname hw hw' hv =>
    rename_i name v t w w' t'
    simp only [List.length_cons, List.length_append] at hn
    simp only [List.cons_append, List.append_assoc]
    have hopens : Opens Value ']' := fun _ _ => value_head
    have hfuel : t.length < (t ++ '"' :: (w ++ ':' :: (w' ++ (t' ++ rest)))).length := by
      simp
    have hcolon : skipWs (w ++ ':' :: (w' ++ (t' ++ rest))) = ':' :: (w' ++ (t' ++ rest)) := by
      rw [skipWs_append hw, skipWs_cons (by decide)]
    have hread : value (skipWs (w' ++ (t' ++ rest))) = some (v, rest) := by
      rw [hopens.skipWs hw' hv]
      exact hvalue v t' rest hv (by omega) hends
    exact readMember_eq (readChars_append hname _ hfuel) hcolon hread

/-- What opens neither a string nor an array nor an object is a word or a number. -/
theorem readValue_other {c : Char} (hquote : c ≠ '"') (hbracket : c ≠ '[') (hbrace : c ≠ '{')
    (depth : ℕ) (rest : List Char) : readValue (depth + 1) (c :: rest) =
      (readWord "null".toList .null (c :: rest)).or
        ((readWord "true".toList (.bool true) (c :: rest)).or
          ((readWord "false".toList (.bool false) (c :: rest)).or (readNumber (c :: rest)))) := by
  rw [readValue, if_neg hquote, if_neg hbracket, if_neg hbrace]

/-- No word is read at another first character. -/
theorem readWord_of_ne {c d : Char} (hne : c ≠ d) (word : List Char) (v : Json) (rest : List Char) :
    readWord (c :: word) v (d :: rest) = none := by
  rw [readWord, if_neg]
  rw [List.cons_prefix_cons]
  exact fun h => hne h.1

/-- A number is read as a value. -/
theorem readValue_number {t rest : List Char} (h : Number t) (hends : EndsNumber rest) (depth : ℕ) :
    readValue (depth + 1) (t ++ rest) = some (.number t, rest) := by
  have hread := readNumber_append h hends
  obtain ⟨c, t', rfl, hc⟩ := number_head h
  have hne : ∀ d : Char, d ≠ '-' → d.isDigit = false → d ≠ c := by
    rintro d hminus hdigit rfl
    rcases hc with hc | hc
    · exact hminus hc
    · exact Bool.noConfusion (hdigit.symm.trans hc)
  rw [List.cons_append] at hread ⊢
  rw [readValue_other (hne '"' (by decide) (by decide)).symm (hne '[' (by decide) (by decide)).symm
    (hne '{' (by decide) (by decide)).symm, hread]
  have hnull := readWord_of_ne (hne 'n' (by decide) (by decide)) "ull".toList .null (t' ++ rest)
  have htrue := readWord_of_ne (hne 't' (by decide) (by decide)) "rue".toList (.bool true) (t' ++ rest)
  have hfalse := readWord_of_ne (hne 'f' (by decide) (by decide)) "alse".toList (.bool false) (t' ++ rest)
  change (readWord ('n' :: "ull".toList) .null _).or
    ((readWord ('t' :: "rue".toList) _ _).or ((readWord ('f' :: "alse".toList) _ _).or _)) = _
  rw [hnull, htrue, hfalse]
  rfl

/-- Values are read up to where they end, with a depth of their length. -/
theorem readValue_complete (depth : ℕ) : ReadsUpTo (readValue depth) Value depth := by
  induction depth with
  | zero =>
    intro v t rest h hn
    obtain ⟨c, t', rfl, -⟩ := value_head h
    exact absurd hn (Nat.not_succ_le_zero _)
  | succ depth ih =>
    intro v t rest h hn hends
    cases h with
    | null => rfl
    | true => rfl
    | false => rfl
    | number h => exact readValue_number h hends depth
    | string h =>
      rename_i s t
      rw [List.cons_append, List.append_assoc, List.singleton_append, readValue_quote,
        readChars_append h rest (by simp)]
      rfl
    | emptyArray hw =>
      rw [List.cons_append, List.append_assoc, List.singleton_append, readValue_bracket,
        readList_empty _ hw (by decide)]
      rfl
    | array h =>
      rename_i vs t
      simp only [List.length_cons, List.length_append] at hn
      rw [List.cons_append, List.append_assoc, List.singleton_append, readValue_bracket,
        readList_complete ih (fun _ _ => value_head) (by decide) (by decide)
          (fun _ => endsNumber_cons (by decide) (by decide) (by decide) (by decide)) h rest (by omega)]
      rfl
    | emptyObject hw =>
      rw [List.cons_append, List.append_assoc, List.singleton_append, readValue_brace,
        readList_empty _ hw (by decide)]
      rfl
    | object h =>
      rename_i ms t
      simp only [List.length_cons, List.length_append] at hn
      rw [List.cons_append, List.append_assoc, List.singleton_append, readValue_brace,
        readList_complete (readMember_complete ih) (fun _ _ => member_head) (by decide) (by decide)
          (fun _ => endsNumber_cons (by decide) (by decide) (by decide) (by decide)) h rest (by omega)]
      rfl

/-- Every JSON text of a value is decoded to it. -/
theorem decode_of_textOf {v : Json} {text : List Char} (h : TextOf v text) : decode text = some v := by
  obtain ⟨w, body, w', rfl, hw, hv, hw'⟩ := h
  have hopens : Opens Value ']' := fun _ _ => value_head
  have hends : EndsNumber w' := List.append_nil w' ▸ endsNumber_append hw' endsNumber_nil
  have hlen : body.length ≤ (w ++ (body ++ w')).length := by
    simp only [List.length_append]
    omega
  have hend : skipWs w' = [] := List.dropWhile_eq_nil_iff.mpr hw'
  rw [decode, hopens.skipWs hw hv, readValue_complete _ v body w' hv hlen hends]
  exact if_pos hend

/-- The decoder finds the value of a text exactly when there is one. -/
theorem decode_eq_some_iff {v : Json} {text : List Char} : decode text = some v ↔ TextOf v text :=
  ⟨textOf_of_decode, decode_of_textOf⟩

end Values

end Json

end Common
