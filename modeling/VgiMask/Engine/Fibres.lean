import VgiMask.Engine.RoundTrip
import VgiMask.Engine.Collisions
import Mathlib.Data.Set.Card

/-!
# How many values have a ciphertext

What a result leaves open is counted by its preimages. Outside card numbers every text is the
result of exactly one value in either direction. A text of sixteen digits is the result of no
card number when it fails the Luhn test, and otherwise of exactly ten, which differ in the last
digit alone: the digit that both directions forget.
-/

namespace VgiMask

open Common

section Preimages

variable {C : Crypto} {forward : Bool} {f : Format} {key v w out : Text}

/-- The values that a direction turns into a text. -/
def preimages (C : Crypto) (forward : Bool) (f : Format) (key out : Text) : Set Text :=
  {v | fpe C forward v f key = .ok out}

/-- A value and its result are in reach of FF1 together. -/
theorem covers_of_fpe (hkey : key ≠ []) (hpres : Ff1Preserves C Numerals)
    (hlen : (f.slots out).length ≤ u32Max) (h : fpe C forward v f key = .ok out) :
    f.Covers Ff1Domain (f.slots v).length := by
  rw [slots_length_of_fpe hkey hpres (covers_numerals f _) h] at hlen
  exact covers_ff1Domain hlen

/-- A settled text is the result of the values that settle to what the other direction gives. -/
theorem preimages_eq_settled (hkey : key ≠ []) (hacc : Ff1Accepts C Ff1Domain)
    (hpres : Ff1Preserves C Numerals) (hinv : Ff1Inverse C Ff1Domain)
    (hlen : (f.slots out).length ≤ u32Max) (hsettled : f.settled out = out) :
    ∃ w, (f.slots w).length = (f.slots out).length ∧ f.settled w = w ∧
      preimages C forward f key out = {v | f.settled v = w} := by
  have hpres' := hpres.ff1Domain
  have hcov : f.Covers Ff1Domain (f.slots out).length := covers_ff1Domain hlen
  obtain ⟨w, hw⟩ : ∃ w, fpe C (!forward) out f key = .ok w := fpe_returns hkey hacc hpres' hcov
  have hback := fpe_inverse hkey hpres' hinv hcov hw
  rw [hsettled, Bool.not_not] at hback
  have hslots := slots_length_of_fpe hkey hpres' hcov hw
  refine ⟨w, hslots, settled_of_fpe hkey hpres' hcov hw, ?_⟩
  ext v
  constructor
  · intro hv
    have hv : fpe C forward v f key = .ok out := hv
    have hv' := fpe_inverse hkey hpres' hinv (covers_of_fpe hkey hpres hlen hv) hv
    exact Outcome.ok.inj (hv'.symm.trans hw)
  · intro hv
    have hv : f.settled v = w := hv
    have hcov' : f.Covers Ff1Domain (f.slots v).length := by
      rw [← slots_settled_length, hv, hslots]
      exact hcov
    change fpe C forward v f key = .ok out
    rw [← fpe_settled hkey hpres' hcov', hv, hback]

/-- The results are the settled texts. -/
theorem preimages_nonempty_iff (hkey : key ≠ []) (hacc : Ff1Accepts C Ff1Domain)
    (hpres : Ff1Preserves C Numerals) (hinv : Ff1Inverse C Ff1Domain)
    (hlen : (f.slots out).length ≤ u32Max) :
    (preimages C forward f key out).Nonempty ↔ f.settled out = out := by
  constructor
  · intro ⟨v, hv⟩
    have hv : fpe C forward v f key = .ok out := hv
    exact settled_of_fpe hkey hpres (covers_numerals f _) hv
  · intro hsettled
    obtain ⟨w, -, hw, hset⟩ : ∃ w, (f.slots w).length = (f.slots out).length ∧ f.settled w = w ∧
        preimages C forward f key out = {v | f.settled v = w} :=
      preimages_eq_settled hkey hacc hpres hinv hlen hsettled
    rw [hset]
    exact ⟨w, hw⟩

end Preimages

section Card

variable {v w : Text} {i : ℕ}

/-- Settling moves no digit. -/
theorem digitIndices_settled (v : Text) : digitIndices (Format.card.settled v) = digitIndices v := by
  have hshape : Format.card.shape (Format.card.settled v) = Format.card.shape v :=
    Format.shape_rebuild (fits_settle .card v)
  rw [digitIndices_eq, digitIndices_eq]
  apply slotIndices_of_skeleton_eq
  exact List.append_cancel_right hshape

/-- There are ten digits. -/
theorem encard_digits : {y : Char | y.isDigit = true}.encard = 10 := by
  have hset : {y : Char | y.isDigit = true} = (DIGITS.symbols.toFinset : Set Char) := by
    ext y
    simp [isDigit_eq_contains, Alphabet.contains_iff]
  have hcard : DIGITS.symbols.toFinset.card = 10 := by decide
  rw [hset, Set.encard_coe_eq_coe_finsetCard, hcard]
  rfl

/-- The values that settle to a valid card number have any digit in its last place. -/
theorem settles_to_card (h16 : (w.filter Char.isDigit).length = 16)
    (hi : (digitIndices w)[15]? = some i) (hsettled : Format.card.settled w = w) :
    {v | Format.card.settled v = w} = (fun y => w.set i y) '' {y : Char | y.isDigit = true} := by
  ext v
  constructor
  · intro hv
    have hv : Format.card.settled v = w := hv
    have hv16 : (v.filter Char.isDigit).length = 16 := by
      rw [← card_slots, ← slots_settled_length, hv, card_slots, h16]
    obtain ⟨hlen, hagree⟩ := (settled_card_eq_iff h16 hv16).mp (hsettled.trans hv.symm)
    have hi' : (digitIndices v)[15]? = some i := by rw [← digitIndices_settled, hv, hi]
    obtain ⟨y, hy, hdigit⟩ := isDigit_sixteenth hi'
    refine ⟨y, hdigit, ?_⟩
    apply List.ext_getElem?
    intro j
    by_cases hij : i = j
    · subst hij
      have hlt : i < w.length := hlen ▸ (List.getElem?_eq_some_iff.mp hy).1
      rw [hy, List.getElem?_set_self hlt]
    · rw [List.getElem?_set_ne hij]
      exact hagree j fun hj => hij (Option.some.inj (hi.symm.trans hj))
  · rintro ⟨y, hy, rfl⟩
    change Format.card.settled (w.set i y) = w
    rw [settled_set_sixteenth h16 hi hy, hsettled]

/-- Ten values settle to a valid card number. -/
theorem encard_settles_to_card (h16 : (w.filter Char.isDigit).length = 16)
    (hsettled : Format.card.settled w = w) : {v | Format.card.settled v = w}.encard = 10 := by
  obtain ⟨i, hi⟩ := exists_sixteenth h16
  obtain ⟨x, hx, -⟩ := isDigit_sixteenth hi
  have hlt : i < w.length := (List.getElem?_eq_some_iff.mp hx).1
  have hinj : Set.InjOn (fun y => w.set i y) {y : Char | y.isDigit = true} := by
    intro y _ z _ h
    have hsame : (w.set i y)[i]? = (w.set i z)[i]? := congrArg (·[i]?) h
    rw [List.getElem?_set_self hlt, List.getElem?_set_self hlt] at hsame
    exact Option.some.inj hsame
  rw [settles_to_card h16 hi hsettled, hinj.encard_image, encard_digits]

/-- One value settles to a text that is no card number. -/
theorem encard_settles_of_not_isCard {f : Format} (h : f.isCard (f.slots w) = false) :
    {v | f.settled v = w}.encard = 1 := by
  have hset : {v | f.settled v = w} = {w} := by
    ext v
    constructor
    · intro hv
      have hv : f.settled v = w := hv
      have hlen : (f.slots v).length = (f.slots w).length := by rw [← slots_settled_length, hv]
      have hnot : f.isCard (f.slots v) = false := (isCard_congr hlen).trans h
      rw [← hv, settled_of_not_isCard hnot]
      rfl
    · intro hv
      have hv : v = w := hv
      subst hv
      exact settled_of_not_isCard h
  rw [hset, Set.encard_singleton]

end Card

/-- In both directions a text is the result of exactly one value, except that a text of sixteen
digits under the card profile is the result of ten values if it passes the Luhn test and of none
if it fails. -/
theorem encard_preimages (C : Crypto) (hacc : Ff1Accepts C Ff1Domain)
    (hpres : Ff1Preserves C Numerals) (hinv : Ff1Inverse C Ff1Domain) (forward : Bool) (f : Format)
    (key : Text) (hkey : key ≠ []) (out : Text) (hlen : (f.slots out).length ≤ u32Max) :
    (preimages C forward f key out).encard =
      if f = .card ∧ (out.filter Char.isDigit).length = 16 then
        if isLuhnValid out then 10 else 0
      else 1 := by
  have hluhn := settled_eq_self_iff_luhn f out
  by_cases hsettled : f.settled out = out
  · obtain ⟨w, hslots, hw, hset⟩ : ∃ w, (f.slots w).length = (f.slots out).length ∧ f.settled w = w ∧
        preimages C forward f key out = {v | f.settled v = w} :=
      preimages_eq_settled hkey hacc hpres hinv hlen hsettled
    rw [hset]
    split
    · rename_i hcard
      obtain ⟨rfl, h16⟩ := hcard
      have hw16 : (w.filter Char.isDigit).length = 16 := by rw [← card_slots, hslots, card_slots, h16]
      rw [encard_settles_to_card hw16 hw, if_pos (hluhn.mp hsettled rfl h16)]
    · rename_i hcard
      apply encard_settles_of_not_isCard
      rw [Bool.eq_false_iff, ne_eq, isCard_eq_true_iff]
      intro ⟨hf, h16⟩
      subst hf
      exact hcard ⟨rfl, by rw [← card_slots, ← hslots, h16]⟩
  · have hempty : preimages C forward f key out = ∅ := by
      rw [← Set.not_nonempty_iff_eq_empty, preimages_nonempty_iff hkey hacc hpres hinv hlen]
      exact hsettled
    rw [hempty, Set.encard_empty]
    have hfails : ¬(f = .card → (out.filter Char.isDigit).length = 16 → isLuhnValid out = true) :=
      fun h => hsettled (hluhn.mpr h)
    simp only [Classical.not_imp, Bool.not_eq_true] at hfails
    obtain ⟨rfl, h16, hinvalid⟩ := hfails
    simp [h16, hinvalid]

/-- Ten spellings of a card number have one ciphertext, and no number has its neighbour. -/
theorem encard_preimages_recorded :
    (preimages recordedCrypto true .card "k".toList "5476791465396370".toList).encard = 10 ∧
      (preimages recordedCrypto true .card "k".toList "5476791465396371".toList).encard = 0 ∧
      (preimages recordedCrypto false .email "k".toList "alice@x.com".toList).encard = 1 := by
  have hcount (forward : Bool) (f : Format) (out : Text) (hlen : (f.slots out).length ≤ u32Max) :=
    encard_preimages recordedCrypto recordedCrypto_accepts (recordedCrypto_preserves Numerals)
      (recordedCrypto_inverse Ff1Domain) forward f "k".toList (by decide) out hlen
  refine ⟨?_, ?_, ?_⟩
  · rw [hcount true .card _ (by decide), if_pos (by decide), if_pos (by decide)]
  · rw [hcount true .card _ (by decide), if_pos (by decide), if_neg (by decide)]
  · rw [hcount false .email _ (by decide), if_neg (by decide)]

end VgiMask
