import VgiMask.Engine.SlotLaws

/-!
# Settling the check digit of a card number

The card profile never reads the sixteenth digit: it settles it to the check digit of the
other fifteen. The settled value differs from the value in that one character, and they are
equal exactly when the number passes the Luhn test, which is the test that the repository's
integration tests run on the digits read out of a text.
-/

namespace VgiMask

open Common

/-- The value of an ASCII digit. -/
def toDigit10 (c : Char) : Option ℕ := if c.isDigit then some (c.toNat - 48) else none

/-- The digits of a text, as numbers. -/
def digitValues (s : Text) : List ℕ := s.filterMap toDigit10

/-- The Luhn test of the digits of a text, from the right, doubling every second one. -/
def isLuhnValid (s : Text) : Bool :=
  let (sum, _) := (digitValues s).reverse.foldl
    (fun acc d => (acc.1 + (if acc.2 then luhnDouble d else d), !acc.2)) (0, false)
  sum % 10 = 0

/-- The character indices of the digits of a text. -/
def digitIndices (v : Text) : List ℕ := slotIndices Char.isDigit 0 v

/-- The value with the last digit of a card number replaced by the check digit of the others. -/
def Format.settled (f : Format) (v : Text) : Text := f.rebuild v (f.settle (f.slots v))

variable {C : Crypto} {key : Text} {f : Format} {forward : Bool} {slots v : Text}

/-- The digits are the decimal numerals. -/
theorem digitValues_eq (v : Text) : digitValues v = DIGITS.numerals v := by
  have hvalue : DIGITS.valueOf = toDigit10 := funext valueOf_digit
  rw [digitValues, Alphabet.numerals, hvalue]

/-- The digit positions are the slots of the decimal alphabet. -/
theorem digitIndices_eq (v : Text) : digitIndices v = slotIndices DIGITS.contains 0 v := by
  rw [digitIndices, funext isDigit_eq_contains]

/-- The testing loop computes the weighted sum. -/
theorem isLuhnValid_iff (s : Text) : isLuhnValid s = true ↔ LuhnValid (digitValues s) := by
  have hloop (ds : List ℕ) (sum : ℕ) (double : Bool) :
      (ds.foldl (fun acc d => (acc.1 + (if acc.2 then luhnDouble d else d), !acc.2))
        (sum, double)).1 = sum + luhnSum double ds := by
    induction ds generalizing sum double with
    | nil => rfl
    | cons d ds ih => rw [List.foldl_cons, ih, luhnSum, Nat.add_assoc]
  have hsum := hloop (digitValues s).reverse 0 false
  rw [Nat.zero_add] at hsum
  unfold isLuhnValid LuhnValid
  dsimp only
  rw [decide_eq_true_iff, hsum]

/-- Only card numbers are settled. -/
theorem settle_of_not_isCard (h : f.isCard slots = false) : f.settle slots = slots := by
  rw [Format.settle, h, if_neg Bool.false_ne_true]

/-- Settling a card number assigns its last slot. -/
theorem settle_card (hs : ∀ c ∈ slots, DIGITS.contains c = true) (h16 : slots.length = 16) :
    Format.card.settle slots =
      slots.set 15 (DIGITS.symbol (luhnCheck ((DIGITS.numerals slots).take 15))) := by
  have hcard : Format.card.isCard slots = true := isCard_eq_true_iff.mpr ⟨rfl, h16⟩
  have hhead : DIGITS.render ((DIGITS.numerals slots).take 15) = slots.take 15 := by
    rw [Alphabet.render, List.map_take]
    exact congrArg (List.take 15)
      ((Alphabet.render_numerals DIGITS slots).trans (List.filter_eq_self.mpr hs))
  rw [Format.settle, if_pos hcard, Alphabet.render, List.map_append, List.set_eq_take_append_cons_drop,
    if_pos (by omega), List.drop_eq_nil_of_le (by omega)]
  exact congrArg (· ++ _) hhead

/-- Settled slots fit where the slots did. -/
theorem settle_fits (hs : ∀ c ∈ slots, f.alphabet.contains c = true) :
    (f.settle slots).length = slots.length ∧ ∀ c ∈ f.settle slots, f.alphabet.contains c = true := by
  cases hcard : f.isCard slots with
  | false =>
    rw [settle_of_not_isCard hcard]
    exact ⟨rfl, hs⟩
  | true =>
    obtain ⟨rfl, h16⟩ := isCard_eq_true_iff.mp hcard
    have hblock := numerals_append_check (numerals_take (DIGITS.numerals_lt slots) 15)
    rw [Format.settle, if_pos hcard]
    refine ⟨?_, Alphabet.contains_of_mem_render hblock⟩
    rw [Alphabet.render_length, List.length_append, take_numerals_length hs h16, h16]
    rfl

/-- The slots of a card number are settled exactly when they pass the Luhn test. -/
theorem settle_card_eq_self_iff (hs : ∀ c ∈ slots, DIGITS.contains c = true)
    (h16 : slots.length = 16) :
    Format.card.settle slots = slots ↔ LuhnValid (DIGITS.numerals slots) := by
  have hcard : Format.card.isCard slots = true := isCard_eq_true_iff.mpr ⟨rfl, h16⟩
  have hnums : (DIGITS.numerals slots).length = 16 := by
    rw [Alphabet.numerals_length, List.filter_eq_self.mpr hs, h16]
  have hsplit : DIGITS.numerals slots =
      (DIGITS.numerals slots).take 15 ++ [(DIGITS.numerals slots)[15]] := by
    rw [List.take_append_getElem, List.take_of_length_le (by omega)]
  have hlast : (DIGITS.numerals slots)[15] < 10 :=
    DIGITS.numerals_lt slots _ (List.getElem_mem _)
  have hread : DIGITS.numerals (Format.card.settle slots) =
      (DIGITS.numerals slots).take 15 ++ [luhnCheck ((DIGITS.numerals slots).take 15)] := by
    rw [Format.settle, if_pos hcard]
    exact Alphabet.numerals_render (numerals_append_check (numerals_take (DIGITS.numerals_lt slots) 15))
  have hvalid : LuhnValid (DIGITS.numerals slots) ↔
      (DIGITS.numerals slots)[15] = luhnCheck ((DIGITS.numerals slots).take 15) := by
    rw [← luhnValid_append_iff_eq_check _ hlast, ← hsplit]
  rw [hvalid]
  constructor
  · intro h
    rw [h] at hread
    have hends := hsplit.symm.trans hread
    exact List.singleton_inj.mp (List.append_cancel_left hends)
  · intro h
    calc
      Format.card.settle slots = DIGITS.render (DIGITS.numerals slots) := by
        rw [Format.settle, if_pos hcard, ← h, ← hsplit]
      _ = slots := (Alphabet.render_numerals DIGITS slots).trans (List.filter_eq_self.mpr hs)

/-- Settling sees only the first fifteen digits, so it does not change the transform. -/
theorem slotTransform_settle (C : Crypto) (key : Text) (forward : Bool)
    (hs : ∀ c ∈ slots, f.alphabet.contains c = true) :
    f.slotTransform C key forward (f.settle slots) = f.slotTransform C key forward slots := by
  cases hcard : f.isCard slots with
  | false => rw [settle_of_not_isCard hcard]
  | true =>
    obtain ⟨rfl, h16⟩ := isCard_eq_true_iff.mp hcard
    have hcard' : Format.card.isCard (Format.card.settle slots) = true :=
      (isCard_congr (settle_fits hs).1).trans hcard
    have hhead : (DIGITS.numerals (Format.card.settle slots)).take 15 =
        (DIGITS.numerals slots).take 15 := by
      rw [Format.settle, if_pos hcard]
      exact take_numerals_render (take_numerals_length hs h16)
        (numerals_take (DIGITS.numerals_lt slots) 15)
    have hunblock : Format.card.unblock (Format.card.settle slots) = Format.card.unblock slots := by
      funext out
      rw [Format.unblock, Format.unblock, if_pos hcard', if_pos hcard]
    rw [Format.slotTransform, Format.slotTransform, Format.block, Format.block, if_pos hcard',
      if_pos hcard, hhead, hunblock]

/-- Transformed slots are settled. -/
theorem slotTransform_settled {D : ℕ → List ℕ → Prop} {new : Text}
    (hs : ∀ c ∈ slots, f.alphabet.contains c = true) (hpres : Ff1Preserves C D)
    (hcalls : f.CallsIn D slots) (h : f.slotTransform C key forward slots = .ok new) :
    f.settle new = new := by
  have hsame : f.isCard new = f.isCard slots :=
    isCard_congr (slotTransform_fits hs hpres hcalls h).1
  cases hcard : f.isCard slots with
  | false => exact settle_of_not_isCard (hsame.trans hcard)
  | true =>
    obtain ⟨out, hlen, hrange, -, -, rfl⟩ := slotTransform_card hs hpres hcalls hcard h
    rw [Format.settle, if_pos (hsame.trans hcard), take_numerals_render hlen hrange]

/-- The settled slots fit the value. -/
theorem fits_settle (f : Format) (v : Text) : f.Fits v (f.settle (f.slots v)) :=
  ⟨(settle_fits Format.contains_of_mem_slots).1, (settle_fits Format.contains_of_mem_slots).2⟩

/-- A value is settled exactly when its slots are. -/
theorem settled_eq_self_iff (f : Format) (v : Text) :
    f.settled v = v ↔ f.settle (f.slots v) = f.slots v := by
  constructor
  · intro h
    rw [← Format.slots_rebuild (fits_settle f v)]
    exact congrArg f.slots h
  · intro h
    rw [Format.settled, h, Format.rebuild_slots]

/-- A value that is not a card number is settled. -/
theorem settled_of_not_isCard (h : f.isCard (f.slots v) = false) : f.settled v = v :=
  (settled_eq_self_iff f v).mpr (settle_of_not_isCard h)

/-- The slots of the card profile are the ASCII digits. -/
theorem card_slots (v : Text) : Format.card.slots v = v.filter Char.isDigit := by
  rw [funext isDigit_eq_contains]
  rfl

/-- The numerals of the card slots are the digits of the value. -/
theorem numerals_card_slots (v : Text) :
    DIGITS.numerals (Format.card.slots v) = digitValues v := by
  rw [digitValues_eq]
  exact Alphabet.numerals_filter DIGITS v

/-- A card number is settled exactly when its digits pass the Luhn test. -/
theorem settled_card_eq_self_iff (h16 : (v.filter Char.isDigit).length = 16) :
    Format.card.settled v = v ↔ isLuhnValid v = true := by
  have hlen : (Format.card.slots v).length = 16 := by rw [card_slots, h16]
  rw [settled_eq_self_iff, settle_card_eq_self_iff Format.contains_of_mem_slots hlen,
    numerals_card_slots, isLuhnValid_iff]

/-- A value is settled unless it is a card number with a wrong check digit. -/
theorem settled_eq_self_iff_luhn (f : Format) (v : Text) :
    f.settled v = v ↔ (f = .card → (v.filter Char.isDigit).length = 16 → isLuhnValid v = true) := by
  cases hcard : f.isCard (f.slots v) with
  | true =>
    obtain ⟨rfl, h16⟩ := isCard_eq_true_iff.mp hcard
    rw [card_slots] at h16
    simp [settled_card_eq_self_iff h16, h16]
  | false =>
    refine iff_of_true (settled_of_not_isCard hcard) fun hf h16 => ?_
    have hnot := isCard_eq_true_iff.not.mp (Bool.eq_false_iff.mp hcard)
    subst hf
    exact absurd ⟨rfl, (card_slots v).symm ▸ h16⟩ hnot

/-- The sixteenth digit of a card number has an index. -/
theorem exists_sixteenth (h16 : (v.filter Char.isDigit).length = 16) :
    ∃ i, (digitIndices v)[15]? = some i := by
  have hlen : (digitIndices v).length = 16 := by rw [digitIndices, slotIndices_length, h16]
  exact ⟨(digitIndices v)[15], List.getElem?_eq_getElem _⟩

/-- The settled card number has the check digit at the index of its sixteenth digit. -/
theorem settled_card_eq_set (h16 : (v.filter Char.isDigit).length = 16) {i : ℕ}
    (hi : (digitIndices v)[15]? = some i) :
    Format.card.settled v = v.set i (DIGITS.symbol (luhnCheck ((digitValues v).take 15))) := by
  have hlen : (Format.card.slots v).length = 16 := by rw [card_slots, h16]
  rw [digitIndices_eq] at hi
  rw [Format.settled, settle_card Format.contains_of_mem_slots hlen, numerals_card_slots]
  have hset (y : Char) : fill DIGITS.contains v ((v.filter DIGITS.contains).set 15 y) = v.set i y :=
    fill_set v 15 0 i y (by rwa [Nat.zero_add])
  exact (List.append_nil _).trans (hset _)

/-- Within the width of its counter the code returns a digit, and it is the only digit that
completes the payload to a number that is valid by index. -/
theorem luhnCheckDigit_completes (payload : List ℕ) (hdigits : ∀ d ∈ payload, d ≤ 9)
    (hfit : 9 * payload.length < 2 ^ 32) :
    ∃ c, (luhnCheckDigit payload : Outcome MaskError ℕ) = .ok c ∧ c ≤ 9 ∧
      luhnIndexSum (payload ++ [c]) % 10 = 0 ∧
      ∀ c' ≤ 9, luhnIndexSum (payload ++ [c']) % 10 = 0 → c' = c := by
  have hnumerals : Numerals 10 payload := fun d hd => Nat.lt_succ_of_le (hdigits d hd)
  have hlt := luhnCheck_lt payload
  have hunique {c : ℕ} (hc : c ≤ 9) :
      luhnIndexSum (payload ++ [c]) % 10 = 0 ↔ c = luhnCheck payload := by
    rw [← luhnValid_iff_indexSum, luhnValid_append_iff_eq_check payload (Nat.lt_succ_of_le hc)]
  have hle : luhnCheck payload ≤ 9 := Nat.le_of_lt_succ hlt
  exact ⟨luhnCheck payload, luhnCheckDigit_eq hnumerals hfit, hle, (hunique hle).mpr rfl,
    fun c' hc' hvalid => (hunique hc').mp hvalid⟩

/-- A payload of ten digits is completed by three. -/
theorem luhnCheckDigit_completes_recorded :
    ∃ c, (luhnCheckDigit [7, 9, 9, 2, 7, 3, 9, 8, 7, 1] : Outcome MaskError ℕ) = .ok c ∧ c ≤ 9 ∧
      luhnIndexSum ([7, 9, 9, 2, 7, 3, 9, 8, 7, 1] ++ [c]) % 10 = 0 := by
  obtain ⟨c, hc, hle, hvalid, -⟩ := luhnCheckDigit_completes [7, 9, 9, 2, 7, 3, 9, 8, 7, 1]
    (by decide) (by decide)
  exact ⟨c, hc, hle, hvalid⟩

end VgiMask
