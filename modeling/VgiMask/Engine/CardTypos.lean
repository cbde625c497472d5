import VgiMask.Engine.Fibres

/-!
# Typing errors in a card's ciphertext

Card ciphertexts pass the Luhn test, so they keep its error detection: a ciphertext with one
digit changed is the ciphertext of no value, and one with two neighbouring digits swapped is
none either, unless the digits are equal or zero and nine. Separators between the digits do not
matter.
-/

namespace VgiMask

open Common

section Digits

variable {c d : Char}

/-- A digit is read as a number below ten. -/
theorem digitValues_cons (hc : c.isDigit = true) (s : Text) :
    digitValues (c :: s) = (c.toNat - 48) :: digitValues s := by
  simp [digitValues, toDigit10, hc]

/-- Digits are between the codes of zero and nine. -/
theorem toNat_of_isDigit (hc : c.isDigit = true) : 48 ≤ c.toNat ∧ c.toNat ≤ 57 := by
  simp only [Char.isDigit, Bool.and_eq_true, decide_eq_true_eq, ge_iff_le] at hc
  exact ⟨UInt32.le_iff_toNat_le.mp hc.1, UInt32.le_iff_toNat_le.mp hc.2⟩

/-- Digits are told apart by their numbers. -/
theorem digit_eq_iff (hc : c.isDigit = true) (hd : d.isDigit = true) :
    c.toNat - 48 = d.toNat - 48 ↔ c = d := by
  obtain ⟨hc, -⟩ := toNat_of_isDigit hc
  obtain ⟨hd, -⟩ := toNat_of_isDigit hd
  rw [← Char.toNat_inj]
  omega

/-- The digits of a text in two parts. -/
theorem digitValues_append (xs ys : Text) :
    digitValues (xs ++ ys) = digitValues xs ++ digitValues ys := List.filterMap_append

/-- A text without digits has no numbers. -/
theorem digitValues_of_filter_eq_nil {m : Text} (hm : m.filter Char.isDigit = []) : digitValues m = [] := by
  rw [digitValues, List.filterMap_eq_nil_iff]
  intro c hc
  have hnot : ¬ c.isDigit = true := List.filter_eq_nil_iff.mp hm c hc
  simp [toDigit10, hnot]

/-- A text with a digit singled out has the number of the digit between those of its parts. -/
theorem digitValues_middle (hc : c.isDigit = true) (xs ys : Text) :
    digitValues (xs ++ c :: ys) = digitValues xs ++ (c.toNat - 48) :: digitValues ys := by
  rw [digitValues_append, digitValues_cons hc]

/-- A text with two neighbouring digits singled out. -/
theorem digitValues_neighbours (hc : c.isDigit = true) (hd : d.isDigit = true) (xs : Text) {m : Text}
    (hm : m.filter Char.isDigit = []) (ys : Text) : digitValues (xs ++ c :: (m ++ d :: ys)) =
      digitValues xs ++ (c.toNat - 48) :: (d.toNat - 48) :: digitValues ys := by
  rw [digitValues_middle hc, digitValues_middle hd, digitValues_of_filter_eq_nil hm, List.nil_append]

end Digits

section Replacements

variable {x y : Char} {p s m : Text}

/-- Replacing a digit keeps a text valid only if it is no change. -/
theorem isLuhnValid_replace_iff (hx : x.isDigit = true) (hy : y.isDigit = true)
    (h : isLuhnValid (p ++ x :: s) = true) : isLuhnValid (p ++ y :: s) = true ↔ y = x := by
  rw [isLuhnValid_iff, digitValues_middle hx] at h
  obtain ⟨hxlow, hxhigh⟩ := toNat_of_isDigit hx
  obtain ⟨hylow, hyhigh⟩ := toNat_of_isDigit hy
  rw [isLuhnValid_iff, digitValues_middle hy, luhnValid_replace_iff (by omega) (by omega) h,
    digit_eq_iff hy hx]

/-- Swapping neighbouring digits keeps a text valid if they are equal or zero and nine. -/
theorem isLuhnValid_swap_iff (hx : x.isDigit = true) (hy : y.isDigit = true)
    (hm : m.filter Char.isDigit = []) (h : isLuhnValid (p ++ x :: (m ++ y :: s)) = true) :
    isLuhnValid (p ++ y :: (m ++ x :: s)) = true ↔
      x = y ∨ (x = '0' ∧ y = '9') ∨ (x = '9' ∧ y = '0') := by
  rw [isLuhnValid_iff, digitValues_neighbours hx hy p hm] at h
  obtain ⟨hxlow, hxhigh⟩ := toNat_of_isDigit hx
  obtain ⟨hylow, hyhigh⟩ := toNat_of_isDigit hy
  have hzero {c : Char} (hc : c.isDigit = true) : c.toNat - 48 = 0 ↔ c = '0' :=
    digit_eq_iff hc (show '0'.isDigit = true by decide)
  have hnine {c : Char} (hc : c.isDigit = true) : c.toNat - 48 = 9 ↔ c = '9' :=
    digit_eq_iff hc (show '9'.isDigit = true by decide)
  rw [isLuhnValid_iff, digitValues_neighbours hy hx p hm, luhnValid_swap_iff (by omega) (by omega) h,
    digit_eq_iff hx hy, hzero hx, hnine hy, hnine hx, hzero hy]

end Replacements

/-- A ciphertext of a card number with one digit replaced is a ciphertext again only if nothing
was changed, and with two neighbouring digits swapped only if they are equal or zero and nine. -/
theorem card_typos (C : Crypto) (hacc : Ff1Accepts C Ff1Domain) (hpres : Ff1Preserves C Numerals)
    (hinv : Ff1Inverse C Ff1Domain) (forward : Bool) (key : Text) (hkey : key ≠ []) (out : Text)
    (h16 : (out.filter Char.isDigit).length = 16)
    (hout : (preimages C forward .card key out).Nonempty) :
    (∀ (p s : Text) (x y : Char), out = p ++ x :: s → x.isDigit = true → y.isDigit = true →
      ((preimages C forward .card key (p ++ y :: s)).Nonempty ↔ y = x)) ∧
    ∀ (p m s : Text) (x y : Char), out = p ++ x :: (m ++ y :: s) → x.isDigit = true →
      y.isDigit = true → m.filter Char.isDigit = [] →
        ((preimages C forward .card key (p ++ y :: (m ++ x :: s))).Nonempty ↔
          x = y ∨ (x = '0' ∧ y = '9') ∨ (x = '9' ∧ y = '0')) := by
  have hresult {t : Text} (ht : (t.filter Char.isDigit).length = 16) :
      (preimages C forward .card key t).Nonempty ↔ isLuhnValid t = true := by
    have hslots : (Format.card.slots t).length ≤ u32Max := by
      rw [card_slots, ht]
      decide
    rw [preimages_nonempty_iff hkey hacc hpres hinv hslots, settled_card_eq_self_iff ht]
  rw [hresult h16] at hout
  constructor
  · intro p s x y hsplit hx hy
    subst hsplit
    have hcount : ((p ++ y :: s).filter Char.isDigit).length = 16 := by simpa [hx, hy] using h16
    rw [hresult hcount, isLuhnValid_replace_iff hx hy hout]
  · intro p m s x y hsplit hx hy hm
    subst hsplit
    have hcount : ((p ++ y :: (m ++ x :: s)).filter Char.isDigit).length = 16 := by
      simpa [hx, hy, hm] using h16
    rw [hresult hcount, isLuhnValid_swap_iff hx hy hm hout]

/-- The ciphertext of a card number, with a digit changed and with two digits swapped over a dash. -/
theorem card_typos_recorded :
    ¬ (preimages recordedCrypto true .card "k".toList "5476-7914-6539-6371".toList).Nonempty ∧
      ¬ (preimages recordedCrypto true .card "k".toList "5477-6914-6539-6370".toList).Nonempty := by
  have hcipher : fpe recordedCrypto true "4012-8888-8888-1881".toList .card "k".toList =
      .ok "5476-7914-6539-6370".toList := by decide +kernel
  obtain ⟨hreplace, hswap⟩ := card_typos recordedCrypto recordedCrypto_accepts
    (recordedCrypto_preserves Numerals) (recordedCrypto_inverse Ff1Domain) true "k".toList (by decide)
    "5476-7914-6539-6370".toList (by decide) ⟨_, hcipher⟩
  constructor
  · exact (hreplace "5476-7914-6539-637".toList [] '0' '1' rfl (by decide) (by decide)).not.mpr
      (by decide)
  · exact (hswap "547".toList "-".toList "914-6539-6370".toList '6' '7' rfl (by decide) (by decide)
      (by decide)).not.mpr (by decide)

end VgiMask
