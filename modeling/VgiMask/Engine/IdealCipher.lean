import VgiMask.Engine.RoundTrip
import Mathlib.Algebra.Group.End

/-!
# Every permutation of a shape is an encryption

Under what is assumed of FF1 the engine permutes the settled values of a shape, or keeps them all
when the shape has too few. Nothing more follows from it: every permutation is the encryption of
some cipher with everything that is assumed. So over all these ciphers a ciphertext tells the shape
of its value, and whatever else is true of ciphertexts is true of FF1.
-/

namespace VgiMask

open Common

/-- The numeral strings of a radix. -/
abbrev NumeralString (radix : ℕ) : Type := {nums : List ℕ // Numerals radix nums}

section Cipher

variable {radix : ℕ}

/-- The permutation keeps the length of every string. -/
def KeepsLength (π : Equiv.Perm (NumeralString radix)) : Prop :=
  ∀ b, (π b).val.length = b.val.length

/-- Permute the numeral strings of one radix, whatever the key, and keep those of others. -/
def permuteKeyed (π : Equiv.Perm (NumeralString radix)) (hπ : KeepsLength π) : KeyedPerm where
  perm := fun _ r => if r = radix then Equiv.Perm.ofSubtype π else 1
  length_eq := by
    intro _ r nums
    by_cases hr : r = radix
    · rw [if_pos hr]
      by_cases hnums : Numerals radix nums
      · rw [Equiv.Perm.ofSubtype_apply_of_mem π hnums]
        exact hπ ⟨nums, hnums⟩
      · rw [Equiv.Perm.ofSubtype_apply_of_not_mem π hnums]
    · rw [if_neg hr, Equiv.Perm.one_apply]
  numerals_iff := by
    intro _ r nums
    by_cases hr : r = radix
    · rw [if_pos hr, hr]
      exact Equiv.Perm.ofSubtype_apply_mem_iff_mem π nums
    · rw [if_neg hr, Equiv.Perm.one_apply]

/-- The crates with the cipher of a permutation of one radix. -/
def permuteCrypto (π : Equiv.Perm (NumeralString radix)) (hπ : KeepsLength π) : Crypto :=
  keyedCrypto sha256 (permuteKeyed π hπ)

/-- A numeral string of the radix is permuted, in each direction by its own permutation. -/
theorem permuteKeyed_apply {π : Equiv.Perm (NumeralString radix)} (hπ : KeepsLength π) (key : AesKey)
    (forward : Bool) (b : NumeralString radix) :
    (permuteKeyed π hπ).apply key radix forward b.val = ((if forward then π else π.symm) b).val := by
  have hperm : (permuteKeyed π hπ).perm key radix = Equiv.Perm.ofSubtype π := if_pos rfl
  rw [KeyedPerm.apply, hperm, symm_ofSubtype]
  cases forward with
  | true => exact Equiv.Perm.ofSubtype_apply_coe π b
  | false => exact Equiv.Perm.ofSubtype_apply_coe π.symm b

/-- The cipher has all that is assumed of FF1. -/
structure Crypto.Ideal (C : Crypto) : Prop where
  accepts : Ff1AcceptsExactly C
  preserves : Ff1Preserves C Numerals
  inverse : Ff1Inverse C Ff1Domain

/-- The cipher of a keyed permutation has all that is assumed of FF1. -/
theorem keyedCrypto_ideal (hash : List UInt8 → Vector UInt8 32) (F : KeyedPerm) :
    (keyedCrypto hash F).Ideal :=
  ⟨keyedCrypto_acceptsExactly hash F, keyedCrypto_preserves hash F _, keyedCrypto_inverse hash F _⟩

/-- The cipher of a permutation that keeps lengths has all that is assumed of FF1. -/
theorem permuteCrypto_ideal {π : Equiv.Perm (NumeralString radix)} (hπ : KeepsLength π) :
    (permuteCrypto π hπ).Ideal :=
  keyedCrypto_ideal sha256 (permuteKeyed π hπ)

end Cipher

section Values

variable {f : Format} {v w : Text} {slots : Text}

/-- The numerals that stand for the slots: all of them, or all but the last of a card number. -/
def Format.numeralsOf (f : Format) (slots : Text) : List ℕ :=
  if f.isCard slots then (DIGITS.numerals slots).take 15 else f.alphabet.numerals slots

/-- How many numerals stand for the slots. -/
def Format.numeralCount (f : Format) (slots : Text) : ℕ := if f.isCard slots then 15 else slots.length

/-- The slots of a class are too few for FF1. -/
def Format.Short (f : Format) (v : Text) : Prop := f.alphabet.radix ^ (f.slots v).length < minDomain

/-- Sixteen digits are not too few. -/
theorem isCard_of_short (h : f.alphabet.radix ^ slots.length < minDomain) : f.isCard slots = false := by
  rw [Bool.eq_false_iff]
  intro hcard
  obtain ⟨rfl, hlen⟩ := isCard_eq_true_iff.mp hcard
  rw [hlen] at h
  exact absurd h (by decide)

/-- Slots that are not too few are handed over as their numerals. -/
theorem block_of_long (h : ¬ f.alphabet.radix ^ slots.length < minDomain) :
    f.block slots = some (f.alphabet.radix, f.numeralsOf slots) := by
  rw [Format.block, Format.numeralsOf]
  cases hcard : f.isCard slots with
  | true =>
    obtain ⟨rfl, -⟩ := isCard_eq_true_iff.mp hcard
    rfl
  | false => rw [if_neg Bool.false_ne_true, if_neg h, if_neg Bool.false_ne_true]

/-- The numerals of slots are a block. -/
theorem numeralsOf_block (hs : ∀ c ∈ slots, f.alphabet.contains c = true) :
    (f.numeralsOf slots).length = f.numeralCount slots ∧
      Numerals f.alphabet.radix (f.numeralsOf slots) := by
  rw [Format.numeralsOf, Format.numeralCount]
  cases hcard : f.isCard slots with
  | true =>
    obtain ⟨rfl, h16⟩ := isCard_eq_true_iff.mp hcard
    exact ⟨take_numerals_length hs h16, numerals_take (DIGITS.numerals_lt slots) 15⟩
  | false =>
    refine ⟨?_, f.alphabet.numerals_lt slots⟩
    rw [if_neg Bool.false_ne_true, if_neg Bool.false_ne_true, Alphabet.numerals_length,
      List.filter_eq_self.mpr hs]

/-- A block written for slots fits them. -/
theorem unblock_fits {nums : List ℕ} (hlen : nums.length = f.numeralCount slots)
    (hrange : Numerals f.alphabet.radix nums) :
    (f.unblock slots nums).length = slots.length ∧
      ∀ c ∈ f.unblock slots nums, f.alphabet.contains c = true := by
  rw [Format.numeralCount] at hlen
  rw [Format.unblock]
  cases hcard : f.isCard slots with
  | true =>
    obtain ⟨rfl, h16⟩ := isCard_eq_true_iff.mp hcard
    rw [hcard, if_pos rfl] at hlen
    rw [if_pos rfl, Alphabet.render_length, List.length_append, hlen, h16]
    exact ⟨rfl, Alphabet.contains_of_mem_render (numerals_append_check hrange)⟩
  | false =>
    rw [hcard, if_neg Bool.false_ne_true] at hlen
    rw [if_neg Bool.false_ne_true, Alphabet.render_length]
    exact ⟨hlen, Alphabet.contains_of_mem_render hrange⟩

/-- A block is read back from the slots written for it. -/
theorem numeralsOf_unblock {nums : List ℕ} (hlen : nums.length = f.numeralCount slots)
    (hrange : Numerals f.alphabet.radix nums) : f.numeralsOf (f.unblock slots nums) = nums := by
  have hsame := isCard_congr (unblock_fits hlen hrange).1 (f := f)
  rw [Format.numeralsOf, hsame]
  rw [Format.numeralCount] at hlen
  rw [Format.unblock]
  cases hcard : f.isCard slots with
  | true =>
    obtain ⟨rfl, -⟩ := isCard_eq_true_iff.mp hcard
    rw [hcard, if_pos rfl] at hlen
    exact take_numerals_render hlen hrange
  | false => exact Alphabet.numerals_render hrange

/-- The slots written for the numerals of slots are those slots, settled. -/
theorem unblock_numeralsOf (hs : ∀ c ∈ slots, f.alphabet.contains c = true) :
    f.unblock slots (f.numeralsOf slots) = f.settle slots := by
  rw [Format.unblock, Format.numeralsOf, Format.settle]
  cases hcard : f.isCard slots with
  | true => rfl
  | false =>
    rw [if_neg Bool.false_ne_true, if_neg Bool.false_ne_true, if_neg Bool.false_ne_true,
      Alphabet.render_numerals, List.filter_eq_self.mpr hs]

/-- Slots of one number make blocks of one length. -/
theorem numeralCount_congr {slots' : Text} (h : slots.length = slots'.length) :
    f.numeralCount slots = f.numeralCount slots' := by
  rw [Format.numeralCount, Format.numeralCount, isCard_congr h, h]

/-- A value is its shape with the gaps filled by its slots. -/
theorem fillGaps_shape (f : Format) (v : Text) : fillGaps (f.shape v) (f.slots v) = v := by
  rw [Format.shape, Format.slots, fillGaps_skeleton_append, Format.body_append_tail]

/-- A value is rebuilt from any other of its shape. -/
theorem rebuild_of_shape_eq (h : f.shape w = f.shape v) : f.rebuild v (f.slots w) = w := by
  have hfits : f.Fits v (f.slots w) := ⟨slots_length_of_shape_eq h, Format.contains_of_mem_slots⟩
  rw [← fillGaps_shape f (f.rebuild v (f.slots w)), Format.shape_rebuild hfits,
    Format.slots_rebuild hfits, ← h, fillGaps_shape]

/-- A settled value is written by its numerals over any other of its shape. -/
theorem rebuild_unblock (h : f.shape w = f.shape v) (hsettled : f.settled w = w) :
    f.rebuild v (f.unblock (f.slots v) (f.numeralsOf (f.slots w))) = w := by
  have hunblock : f.unblock (f.slots v) = f.unblock (f.slots w) := by
    funext nums
    rw [Format.unblock, Format.unblock, isCard_congr (slots_length_of_shape_eq h)]
  rw [hunblock, unblock_numeralsOf Format.contains_of_mem_slots, (settled_eq_self_iff f w).mp hsettled]
  exact rebuild_of_shape_eq h

/-- The numerals that stand for a value. -/
def Format.numeralString (f : Format) (v : Text) : NumeralString f.alphabet.radix :=
  ⟨f.numeralsOf (f.slots v), (numeralsOf_block Format.contains_of_mem_slots).2⟩

/-- Values with equally many slots have numeral strings of one length. -/
theorem numeralString_length (h : (f.slots w).length = (f.slots v).length) :
    (f.numeralString w).val.length = f.numeralCount (f.slots v) :=
  (numeralsOf_block Format.contains_of_mem_slots).1.trans (numeralCount_congr h)

/-- The numerals that are written over the slots of a value are read back. -/
theorem numeralString_rebuild {nums : List ℕ} (hlen : nums.length = f.numeralCount (f.slots v))
    (hrange : Numerals f.alphabet.radix nums) :
    (f.numeralString (f.rebuild v (f.unblock (f.slots v) nums))).val = nums := by
  obtain ⟨hcount, hcontains⟩ := unblock_fits (f := f) hlen hrange
  have hfits : f.Fits v (f.unblock (f.slots v) nums) := ⟨hcount, hcontains⟩
  change f.numeralsOf (f.slots (f.rebuild v (f.unblock (f.slots v) nums))) = nums
  rw [Format.slots_rebuild hfits, numeralsOf_unblock hlen hrange]

end Values

section Encryptions

variable {f : Format} {v key : Text}

/-- A value with too few slots is kept in both directions. -/
theorem fpe_of_short {C : Crypto} (hkey : key ≠ []) (hacc : Ff1Accepts C Ff1Domain)
    (hpres : Ff1Preserves C Ff1Domain) (hlen : (f.slots v).length ≤ u32Max) (hshort : f.Short v)
    (forward : Bool) : fpe C forward v f key = .ok v := by
  have hcov : f.Covers Ff1Domain (f.slots v).length := covers_ff1Domain hlen
  obtain ⟨out, hout⟩ : ∃ out, fpe C forward v f key = .ok out := fpe_returns hkey hacc hpres hcov
  obtain ⟨new, hnew, -, rfl⟩ := fpe_eq_ok hkey hpres hcov hout
  rw [hout, slotTransform_short (isCard_of_short hshort) hshort hnew, Format.rebuild_slots]

/-- The cipher of a permutation writes the permuted numerals over the slots. -/
theorem fpe_permuteCrypto {π : Equiv.Perm (NumeralString f.alphabet.radix)} (hπ : KeepsLength π)
    (hkey : key ≠ []) (hlen : (f.slots v).length ≤ u32Max) (hlong : ¬ f.Short v) (forward : Bool) :
    fpe (permuteCrypto π hπ) forward v f key = .ok (f.rebuild v
      (f.unblock (f.slots v) ((if forward then π else π.symm) (f.numeralString v)).val)) := by
  have hpres := (permuteCrypto_ideal hπ).preserves.ff1Domain
  have hcov : f.Covers Ff1Domain (f.slots v).length := covers_ff1Domain hlen
  have hblock := block_of_long hlong
  have hff1 : (permuteCrypto π hπ).ff1 (aesKey (permuteCrypto π hπ) key) f.alphabet.radix forward
      (f.numeralString v).val = .ok ((if forward then π else π.symm) (f.numeralString v)).val := by
    rw [← permuteKeyed_apply hπ (aesKey (permuteCrypto π hπ) key)]
    exact keyedCrypto_ff1 sha256 (permuteKeyed π hπ) _ forward (hcov.callsIn _ _ hblock)
  change (permuteCrypto π hπ).ff1 _ _ _ (f.numeralsOf (f.slots v)) = _ at hff1
  rw [fpe_eq_rebuild hkey hpres hcov, Format.slotTransform, hblock]
  dsimp only
  rw [(ff1Apply_eq_ok_iff _ _ _ _ _ _).mpr hff1, Outcome.map_ok, Outcome.map_ok]

end Encryptions

end VgiMask
