import VgiMask.Common.Outcome
import Mathlib.Logic.Equiv.Defs
import Mathlib.Data.Set.Basic

/-!
# Permutations from inverse calls

Two calls that return on a set, stay in it and undo each other are the two directions of
one permutation of the set.
-/

namespace Common

variable {ε α : Type}

/-- Mutually inverse calls on a set are one permutation of it, read in both directions. -/
theorem exists_perm_of_inverse {S : Set α} (enc dec : α → Outcome ε α)
    (henc : ∀ a ∈ S, ∃ b ∈ S, enc a = .ok b ∧ dec b = .ok a)
    (hdec : ∀ b ∈ S, ∃ a ∈ S, dec b = .ok a ∧ enc a = .ok b) :
    ∃ π : Equiv.Perm S, ∀ a : S, enc a = .ok (π a).val ∧ dec a = .ok (π.symm a).val := by
  choose e heS hee hed using henc
  choose d hdS hdd hde using hdec
  have hleft (a : α) (ha : a ∈ S) : d (e a ha) (heS a ha) = a := by
    have h := (hdd _ (heS a ha)).symm.trans (hed a ha)
    exact Outcome.ok.inj h
  have hright (b : α) (hb : b ∈ S) : e (d b hb) (hdS b hb) = b := by
    have h := (hee _ (hdS b hb)).symm.trans (hde b hb)
    exact Outcome.ok.inj h
  let π : Equiv.Perm S :=
    { toFun := fun a => ⟨e a a.2, heS a a.2⟩
      invFun := fun b => ⟨d b b.2, hdS b b.2⟩
      left_inv := fun a => Subtype.ext (hleft a a.2)
      right_inv := fun b => Subtype.ext (hright b b.2) }
  exact ⟨π, fun a => ⟨hee a a.2, hdd a a.2⟩⟩

end Common
