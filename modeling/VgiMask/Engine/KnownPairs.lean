import VgiMask.Engine.IdealCipher
import VgiMask.Common.PartialPermutation
import Mathlib.Data.Set.Finite.List

/-!
# The pairs of values and ciphertexts that are possible

Values and their ciphertexts under one key have more in common than their shapes: FF1 sees the
numerals alone, so ciphertexts have equal numerals exactly when the values have. With that every
table of values and ciphertexts is that of some cipher. Over all ciphers with what is assumed of FF1,
many ciphertexts tell the shapes and which numerals are equal, and with known values still nothing
about the others; values too short for FF1 are shown in clear.
-/

namespace VgiMask

open Common

/-- An output that a value can have by its shape: a short value is kept. -/
structure MaskedAs (f : Format) (v out : Text) : Prop where
  shape_eq : f.shape out = f.shape v
  settled_eq : f.settled out = out
  eq_of_short : f.Short v → out = v

/-- Outputs that are not kept have equal numerals exactly when their values have. -/
def SameEqualities (f : Format) (pairs : Set (Text × Text)) : Prop :=
  ∀ p ∈ pairs, ∀ q ∈ pairs, ¬ f.Short p.1 → ¬ f.Short q.1 →
    (f.numeralString p.2 = f.numeralString q.2 ↔ f.numeralString p.1 = f.numeralString q.1)

/-- The numerals of the values that are not kept. -/
def movedStrings (f : Format) (pairs : Set (Text × Text)) : Set (NumeralString f.alphabet.radix) :=
  {b | ∃ p ∈ pairs, ¬ f.Short p.1 ∧ f.numeralString p.1 = b}

/-- There are finitely many numeral strings of a length. -/
theorem finite_numeralString (radix len : ℕ) :
    {b : NumeralString radix | b.val.length = len}.Finite := by
  have hlists := (List.finite_length_eq (Fin radix) len).image (List.map Fin.val)
  refine (hlists.preimage Subtype.val_injective.injOn).subset fun b hb => ?_
  have hrange : ∀ d ∈ b.val, d < radix := b.property
  refine ⟨b.val.pmap Fin.mk hrange, ?_, ?_⟩
  · exact List.length_pmap.trans hb
  · rw [List.map_pmap]
    exact (List.pmap_eq_map hrange).trans (List.map_id b.val)

variable {C : Crypto} {f : Format} {key v out : Text}

/-- FF1 maps the numerals of a value to those of its output. -/
theorem ff1_of_fpe (hC : C.Ideal) (hkey : key ≠ []) (hlen : (f.slots v).length ≤ u32Max)
    (hlong : ¬ f.Short v) {forward : Bool} (h : fpe C forward v f key = .ok out) :
    C.ff1 (aesKey C key) f.alphabet.radix forward (f.numeralString v).val = .ok (f.numeralString out).val := by
  have hcov : f.Covers Ff1Domain (f.slots v).length := covers_ff1Domain hlen
  have hblock := block_of_long hlong
  obtain ⟨new, hnew, -, rfl⟩ := fpe_eq_ok hkey hC.preserves.ff1Domain hcov h
  rw [Format.slotTransform, hblock] at hnew
  obtain ⟨nums, hnums, rfl⟩ := (Outcome.map_eq_ok_iff _ _ _).mp hnew
  have hff1 := (ff1Apply_eq_ok_iff _ _ _ _ _ _).mp hnums
  obtain ⟨hcount, hrange⟩ := hC.preserves _ _ _ _ _ (hcov.callsIn _ _ hblock).2.1 hff1
  have hcount' : nums.length = f.numeralCount (f.slots v) := hcount.trans (numeralString_length rfl)
  rw [numeralString_rebuild hcount' hrange]
  exact hff1

/-- What is encrypted is masked as its shape allows. -/
theorem maskedAs_of_fpe (hC : C.Ideal) (hkey : key ≠ []) (hlen : (f.slots v).length ≤ u32Max)
    {forward : Bool} (h : fpe C forward v f key = .ok out) : MaskedAs f v out := by
  have hpres := hC.preserves.ff1Domain
  have hcov : f.Covers Ff1Domain (f.slots v).length := covers_ff1Domain hlen
  refine ⟨shape_of_fpe hkey hpres hcov h, settled_of_fpe hkey hpres hcov h, fun hshort => ?_⟩
  have hkept := fpe_of_short hkey hC.accepts.accepts hpres hlen hshort forward
  exact Outcome.ok.inj (h.symm.trans hkept)

/-- Ciphertexts under one key have equal numerals exactly when the values have. -/
theorem sameEqualities_of_fpe (hC : C.Ideal) (hkey : key ≠ []) {pairs : Set (Text × Text)}
    (hlen : ∀ p ∈ pairs, (f.slots p.1).length ≤ u32Max)
    (h : ∀ p ∈ pairs, fpe C true p.1 f key = .ok p.2) : SameEqualities f pairs := by
  intro p hp q hq hp' hq'
  have hffp := ff1_of_fpe hC hkey (hlen p hp) hp' (h p hp)
  have hffq := ff1_of_fpe hC hkey (hlen q hq) hq' (h q hq)
  have hdomain {w : Text} (hw : (f.slots w).length ≤ u32Max) (hw' : ¬ f.Short w) :
      Ff1Domain f.alphabet.radix (f.numeralString w).val :=
    (covers_ff1Domain hw).callsIn _ _ (block_of_long hw')
  constructor
  · intro heq
    have hbackp := hC.inverse _ _ _ _ _ (hdomain (hlen p hp) hp') hffp
    have hbackq := hC.inverse _ _ _ _ _ (hdomain (hlen q hq) hq') hffq
    rw [heq] at hbackp
    exact Subtype.ext (Outcome.ok.inj (hbackp.symm.trans hbackq))
  · intro heq
    rw [heq] at hffp
    exact Subtype.ext (Outcome.ok.inj (hffp.symm.trans hffq))

/-- Pairs that agree in shapes and in equal numerals are made by some permutation of numerals. -/
theorem exists_perm_of_pairs {pairs : Set (Text × Text)} (hmasked : ∀ p ∈ pairs, MaskedAs f p.1 p.2)
    (hequal : SameEqualities f pairs) :
    ∃ π : Equiv.Perm (NumeralString f.alphabet.radix), KeepsLength π ∧
      ∀ p ∈ pairs, ¬ f.Short p.1 → π (f.numeralString p.1) = f.numeralString p.2 := by
  have hvalue (b : NumeralString f.alphabet.radix) : ∃ b' : NumeralString f.alphabet.radix,
      ∀ p ∈ pairs, ¬ f.Short p.1 → f.numeralString p.1 = b → f.numeralString p.2 = b' := by
    by_cases h : ∃ p ∈ pairs, ¬ f.Short p.1 ∧ f.numeralString p.1 = b
    · obtain ⟨p, hp, hlong, rfl⟩ := h
      exact ⟨f.numeralString p.2, fun q hq hq' heq => (hequal q hq p hp hq' hlong).mpr heq⟩
    · exact ⟨b, fun p hp hlong heq => absurd ⟨p, hp, hlong, heq⟩ h⟩
  choose g hg using hvalue
  have hclass : ∀ b ∈ movedStrings f pairs, (g b).val.length = b.val.length := by
    rintro b ⟨p, hp, hlong, rfl⟩
    rw [← hg _ p hp hlong rfl]
    have hslots := slots_length_of_shape_eq (hmasked p hp).shape_eq
    exact (numeralString_length hslots).trans (numeralString_length rfl).symm
  have hinj : Set.InjOn g (movedStrings f pairs) := by
    rintro b ⟨p, hp, hlong, rfl⟩ b' ⟨q, hq, hlong', rfl⟩ heq
    rw [← hg _ p hp hlong rfl, ← hg _ q hq hlong' rfl] at heq
    exact (hequal p hp q hq hlong hlong').mp heq
  obtain ⟨π, hkeeps, hπ⟩ := exists_perm_keeping (finite_numeralString f.alphabet.radix) hclass hinj
  exact ⟨π, hkeeps, fun p hp hlong => (hπ _ ⟨p, hp, hlong, rfl⟩).trans (hg _ p hp hlong rfl).symm⟩

/-- The tables of values and ciphertexts under one key are those that agree in shapes and in equal
numerals. -/
theorem exists_cipher_iff {pairs : Set (Text × Text)} (hkey : key ≠ [])
    (hlen : ∀ p ∈ pairs, (f.slots p.1).length ≤ u32Max) :
    (∃ C : Crypto, C.Ideal ∧ ∀ p ∈ pairs, fpeEncrypt C p.1 f key = .ok p.2) ↔
      (∀ p ∈ pairs, MaskedAs f p.1 p.2) ∧ SameEqualities f pairs := by
  constructor
  · intro ⟨C, hC, h⟩
    have h : ∀ p ∈ pairs, fpe C true p.1 f key = .ok p.2 := h
    exact ⟨fun p hp => maskedAs_of_fpe hC hkey (hlen p hp) (h p hp), sameEqualities_of_fpe hC hkey hlen h⟩
  · intro ⟨hmasked, hequal⟩
    obtain ⟨π, hkeeps, hπ⟩ := exists_perm_of_pairs hmasked hequal
    have hideal := permuteCrypto_ideal hkeeps
    refine ⟨permuteCrypto π hkeeps, hideal, fun p hp => ?_⟩
    change fpe (permuteCrypto π hkeeps) true p.1 f key = .ok p.2
    by_cases hshort : f.Short p.1
    · rw [fpe_of_short hkey hideal.accepts.accepts hideal.preserves.ff1Domain (hlen p hp) hshort true,
        (hmasked p hp).eq_of_short hshort]
    · rw [fpe_permuteCrypto hkeeps hkey (hlen p hp) hshort true, if_pos rfl,
        hπ p hp hshort]
      exact congrArg Outcome.ok (rebuild_unblock (hmasked p hp).shape_eq (hmasked p hp).settled_eq)

end VgiMask
