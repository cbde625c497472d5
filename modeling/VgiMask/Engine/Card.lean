import VgiMask.Engine.OverAlphabet

/-!
# The card transform rewrites the same slots

The card profile finds its digits by byte offset, reads them as bytes, and recounts
characters before each assignment. At a digit both addresses measure the text before it, so
the card transform of sixteen digits is one rewrite of the digit slots: fifteen numerals
from FF1 and their check digit.
-/

namespace VgiMask

open Common

/-- A decimal digit's byte is its numeral above the byte of zero. -/
private theorem digit_bytes : ∀ c ∈ DIGITS.symbols, DIGITS.valueOf c = some (c.toNat - 48) ∧
    c.isDigit = true ∧ 48 ≤ c.val.toUInt8.toNat ∧ c.val.toUInt8.toNat - 48 = c.toNat - 48 :=
  List.all_iff_forall_prop.mp (by decide)

/-- The ASCII digits are the symbols of the decimal alphabet. -/
theorem isDigit_eq_contains (c : Char) : c.isDigit = DIGITS.contains c := by
  rw [Bool.eq_iff_iff, Alphabet.contains_iff]
  constructor
  · intro h
    have hrange : 48 ≤ c.toNat ∧ c.toNat ≤ 57 := by
      simpa [Char.isDigit, UInt32.le_iff_toNat_le] using h
    have hcases : c.toNat ∈ DIGITS.symbols.map Char.toNat := by
      obtain ⟨hlow, hhigh⟩ := hrange
      have hmem : ∀ n : Fin 58, 48 ≤ n.val → n.val ∈ DIGITS.symbols.map Char.toNat := by decide
      exact hmem ⟨c.toNat, by omega⟩ hlow
    obtain ⟨d, hd, heq⟩ := List.mem_map.mp hcases
    exact Char.toNat_inj.mp heq ▸ hd
  · intro h
    exact (digit_bytes c h).2.1

/-- The numeral of an ASCII digit is its distance from zero. -/
theorem valueOf_digit (c : Char) :
    DIGITS.valueOf c = if c.isDigit then some (c.toNat - 48) else none := by
  rw [isDigit_eq_contains]
  by_cases hc : DIGITS.contains c = true
  · rw [if_pos hc, (digit_bytes c (Alphabet.contains_iff.mp hc)).1]
  · rw [if_neg hc]
    simpa [Alphabet.contains] using hc

/-- The numerals of a text are the values of its ASCII digits. -/
theorem numerals_digits (cs : Text) :
    DIGITS.numerals cs = (cs.filter DIGITS.contains).map fun c => c.toNat - 48 := by
  induction cs with
  | nil => rfl
  | cons c cs ih =>
    have hvalue := valueOf_digit c
    rw [isDigit_eq_contains] at hvalue
    by_cases hc : DIGITS.contains c = true
    · simpa [Alphabet.numerals, hc, hvalue] using ih
    · simpa [Alphabet.numerals, hc, hvalue] using ih

/-- Within the width of the counter, the checksum loop computes the weighted sum. -/
private theorem luhnStep_foldlM {ε : Type} {ds : List ℕ} (hdigits : ∀ d ∈ ds, d ≤ 9)
    (sum : ℕ) (double : Bool) (hfit : sum + 9 * ds.length < 2 ^ 32) :
    ∃ flag, (ds.foldlM luhnStep (sum, double) : Outcome ε (ℕ × Bool)) =
      .ok (sum + luhnSum double ds, flag) := by
  induction ds generalizing sum double with
  | nil => exact ⟨double, rfl⟩
  | cons d ds ih =>
    have hd : d ≤ 9 := hdigits d List.mem_cons_self
    have hdouble := luhnDouble_le hd
    rw [List.length_cons] at hfit
    have hv : (if double then luhnDouble d else d) ≤ 9 := by
      split <;> assumption
    have hstep : (luhnStep (sum, double) d : Outcome ε (ℕ × Bool)) =
        .ok (sum + (if double then luhnDouble d else d), !double) := by
      rw [luhnStep, addChecked_of_lt (by dsimp only; omega)]
      rfl
    obtain ⟨flag, hrest⟩ := ih (fun x hx => hdigits x (List.mem_cons_of_mem _ hx))
      (sum + if double then luhnDouble d else d) (!double) (by omega)
    refine ⟨flag, ?_⟩
    rw [List.foldlM_cons, hstep, Outcome.ok_bind, hrest, luhnSum, Nat.add_assoc]

/-- For digits whose number the counter can hold, the check digit is returned. -/
theorem luhnCheckDigit_eq {ε : Type} {payload : List ℕ} (hdigits : Numerals 10 payload)
    (hfit : 9 * payload.length < 2 ^ 32) :
    (luhnCheckDigit payload : Outcome ε ℕ) = .ok (luhnCheck payload) := by
  have hreverse : ∀ d ∈ payload.reverse, d ≤ 9 := fun d hd =>
    Nat.le_of_lt_succ (hdigits d (List.mem_reverse.mp hd))
  obtain ⟨flag, hfold⟩ : ∃ flag, (payload.reverse.foldlM luhnStep (0, true) :
      Outcome ε (ℕ × Bool)) = .ok (0 + luhnSum true payload.reverse, flag) :=
    luhnStep_foldlM hreverse 0 true (by rw [List.length_reverse]; omega)
  rw [luhnCheckDigit, hfold]
  simp [luhnCheck]

/-- The digit positions of the card profile are the byte offsets of the digit slots. -/
theorem digitPositions_eq (value : Text) :
    ((charIndices 0 value).filter fun entry => entry.2.isDigit).map Prod.fst =
      (slotSplits DIGITS.contains [] value).map fun entry => utf8Len entry.1 := by
  rw [slotSplits_offsets]
  simp only [isDigit_eq_contains, utf8Len_nil]

/-- Reading the bytes at the digit positions gives the numerals. -/
theorem mapM_digitAt {ε : Type} (value : Text) :
    (((slotSplits DIGITS.contains [] value).map fun entry => utf8Len entry.1).mapM
        (digitAt (utf8Bytes value)) : Outcome ε (List ℕ)) = .ok (DIGITS.numerals value) := by
  rw [mapM_map_eq_ok _ _ (fun entry : Text × Char => entry.2.toNat - 48)]
  · rw [numerals_digits, ← slotSplits_symbols [] value, List.map_map]
    rfl
  · intro entry hentry
    obtain ⟨hdigit, rest, hsplit⟩ := mem_slotSplits hentry
    rw [List.nil_append] at hsplit
    have hmem := Alphabet.contains_iff.mp hdigit
    obtain ⟨-, -, hle, hvalue⟩ := digit_bytes entry.2 hmem
    rw [digitAt, hsplit,
      getChecked_of_getElem? (utf8Bytes_getElem? entry.1 rest (DIGITS.one_byte _ hmem)),
      Outcome.ok_bind, subChecked_of_le hle, hvalue]

/-- Recounting the characters before a digit's byte offset gives its slot index. -/
theorem forall₂_charIndexOf {ε : Type} (value : Text) :
    List.Forall₂ (fun offset i => (charIndexOf value offset : Outcome ε ℕ) = .ok i)
      ((slotSplits DIGITS.contains [] value).map fun entry => utf8Len entry.1)
      (slotIndices DIGITS.contains 0 value) := by
  have hindices : (slotSplits DIGITS.contains [] value).map (fun entry => entry.1.length) =
      slotIndices DIGITS.contains 0 value := slotSplits_indices [] value
  rw [← hindices, List.forall₂_map_left_iff, List.forall₂_map_right_iff, List.forall₂_same]
  intro entry hentry
  obtain ⟨-, rest, hsplit⟩ := mem_slotSplits hentry
  rw [List.nil_append] at hsplit
  rw [charIndexOf, hsplit, sliceTo_append]
  rfl

/-- With any other number of digits the card profile is the digit profile. -/
theorem fpeCard_of_ne (C : Crypto) (key value : Text) (forward : Bool)
    (h : (value.filter DIGITS.contains).length ≠ 16) :
    fpeCard C key value forward = fpeOverAlphabet C key value DIGITS forward := by
  have hlen : ((slotSplits DIGITS.contains [] value).map fun entry => utf8Len entry.1).length =
      (value.filter DIGITS.contains).length := by
    rw [← slotSplits_symbols [] value, List.length_map, List.length_map]
  unfold fpeCard
  rw [digitPositions_eq]
  dsimp only
  rw [if_pos (by rw [hlen]; exact h)]

/-- With sixteen digits the card profile rewrites them by the block and its check digit. -/
theorem fpeCard_of_sixteen (C : Crypto) (key value : Text) (forward : Bool)
    (h : (value.filter DIGITS.contains).length = 16)
    (hshape : ∀ out, ff1Apply C key 10 ((DIGITS.numerals value).take 15) forward = .ok out →
      out.length = 15 ∧ Numerals 10 out) :
    fpeCard C key value forward =
      (fun out => fill DIGITS.contains value (DIGITS.render (out ++ [luhnCheck out]))) <$>
        ff1Apply C key 10 ((DIGITS.numerals value).take 15) forward := by
  have hlen : ((slotSplits DIGITS.contains [] value).map fun entry => utf8Len entry.1).length =
      (value.filter DIGITS.contains).length := by
    rw [← slotSplits_symbols [] value, List.length_map, List.length_map]
  have hnums : (DIGITS.numerals value).length = 16 := by rw [Alphabet.numerals_length, h]
  unfold fpeCard
  rw [digitPositions_eq]
  dsimp only
  rw [if_neg (by rw [hlen, h]; simp), mapM_digitAt, Outcome.ok_bind,
    takeChecked_of_le (by omega), Outcome.ok_bind]
  change (ff1Apply C key 10 ((DIGITS.numerals value).take 15) forward >>= _) = _
  cases hout : ff1Apply C key 10 ((DIGITS.numerals value).take 15) forward with
  | ok out =>
    obtain ⟨hlength, hrange⟩ := hshape out hout
    have hdigits : Numerals 10 (out ++ [luhnCheck out]) := by
      intro d hd
      rcases List.mem_append.mp hd with hd | hd
      · exact hrange d hd
      · exact List.mem_singleton.mp hd ▸ luhnCheck_lt out
    rw [Outcome.ok_bind, luhnCheckDigit_eq hrange (by rw [hlength]; decide), Outcome.ok_bind,
      Outcome.map_ok]
    exact writeSlots_eq_fill (fun v hv => Alphabet.symbolOf_of_lt (hdigits v hv))
      (forall₂_charIndexOf value) (by rw [List.length_append, hlength, h]; rfl)
  | err e => rfl
  | panic => rfl
  | diverge => rfl

end VgiMask
