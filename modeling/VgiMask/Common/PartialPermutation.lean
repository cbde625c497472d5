import Mathlib.Data.Fintype.Sum
import Mathlib.Data.Set.Finite.Basic
import Mathlib.GroupTheory.Perm.List
import Mathlib.Logic.Equiv.Set

/-!
# Permutations with given values

A class function has finite classes. What is asked of a permutation on some elements can be had
when it stays in their classes and sends no two of them to one: the other elements of a class are
sent to the elements that are left. Values that are known along a list are had by closing it to a
cycle.
-/

namespace Common

variable {α β : Type}

/-- The permutation made of a permutation of each class. -/
def classwise (c : α → β) (ρ : ∀ y, Equiv.Perm {x // c x = y}) : Equiv.Perm α :=
  (Equiv.sigmaFiberEquiv c).symm.trans ((Equiv.sigmaCongrRight ρ).trans (Equiv.sigmaFiberEquiv c))

/-- An element is permuted within its class. -/
theorem classwise_apply (c : α → β) (ρ : ∀ y, Equiv.Perm {x // c x = y}) (x : α) :
    classwise c ρ x = (ρ (c x) ⟨x, rfl⟩).val := rfl

/-- A permutation of a part is inverted in the part. -/
theorem symm_ofSubtype {p : α → Prop} [DecidablePred p] (π : Equiv.Perm (Subtype p)) :
    (Equiv.Perm.ofSubtype π).symm = Equiv.Perm.ofSubtype π.symm :=
  (map_inv Equiv.Perm.ofSubtype π).symm

variable {c : α → β} {s : Set α} {g : α → α}

/-- In a finite class, values for some elements are the values of a permutation. -/
theorem exists_perm_of_class {y : β} (hfinite : {x | c x = y}.Finite) (hclass : ∀ x ∈ s, c (g x) = c x)
    (hinj : Set.InjOn g s) : ∃ ρ : Equiv.Perm {x // c x = y}, ∀ x, x.val ∈ s → (ρ x).val = g x.val := by
  classical
  have : Fintype {x // c x = y} := hfinite.fintype
  have hmaps : Set.MapsTo (fun x : {x // c x = y} => g x.val) {x | x.val ∈ s} hfinite.toFinset := by
    intro x hx
    exact hfinite.mem_toFinset.mpr ((hclass x.val hx).trans x.property)
  have hinj' : Set.InjOn (fun x : {x // c x = y} => g x.val) {x | x.val ∈ s} := fun x hx x' hx' h =>
    Subtype.ext (hinj hx hx' h)
  have hcard : Fintype.card {x // c x = y} = hfinite.toFinset.card :=
    (@Set.Finite.card_toFinset α {x | c x = y} this hfinite).symm
  obtain ⟨e, he⟩ := hmaps.exists_equiv_extend_of_card_eq hcard hinj'
  exact ⟨e.trans (Equiv.subtypeEquivRight fun x => hfinite.mem_toFinset), he⟩

/-- Values for some elements, each in its element's class and none given twice, are the values of a
permutation that keeps the classes. -/
theorem exists_perm_keeping (hfinite : ∀ y, {x | c x = y}.Finite) (hclass : ∀ x ∈ s, c (g x) = c x)
    (hinj : Set.InjOn g s) : ∃ π : Equiv.Perm α, (∀ x, c (π x) = c x) ∧ ∀ x ∈ s, π x = g x := by
  choose ρ hρ using fun y => exists_perm_of_class (hfinite y) hclass hinj
  refine ⟨classwise c ρ, fun x => ?_, fun x hx => ?_⟩
  · rw [classwise_apply]
    exact (ρ (c x) ⟨x, rfl⟩).property
  · rw [classwise_apply]
    exact hρ (c x) ⟨x, rfl⟩ hx

section Cycles

variable [DecidableEq α]

/-- The permutation that goes along the lists, from the end of each back to its head. -/
def alongCycles (cycles : List (List α)) : Equiv.Perm α := (cycles.map List.formPerm).prod

/-- Going along a list within one class keeps every class. -/
theorem formPerm_keeps {l : List α} (hl : ∀ x ∈ l, ∀ y ∈ l, c x = c y) (x : α) :
    c (l.formPerm x) = c x := by
  by_cases hx : x ∈ l
  · exact hl _ (List.formPerm_apply_mem_of_mem hx) x hx
  · rw [List.formPerm_apply_of_notMem hx]

/-- Going along lists within one class each keeps every class. -/
theorem alongCycles_keeps {cycles : List (List α)}
    (h : ∀ l ∈ cycles, ∀ x ∈ l, ∀ y ∈ l, c x = c y) (x : α) : c (alongCycles cycles x) = c x := by
  induction cycles with
  | nil => rfl
  | cons l cycles ih =>
    obtain ⟨hl, hrest⟩ := List.forall_mem_cons.mp h
    rw [alongCycles, List.map_cons, List.prod_cons, Equiv.Perm.mul_apply, formPerm_keeps hl]
    exact ih hrest

end Cycles

end Common
