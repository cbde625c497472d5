import Mathlib.Data.List.Dedup
import Mathlib.Data.List.Count
import Mathlib.Data.Finset.Card
import Mathlib.Data.Finset.Image
import Mathlib.Data.Set.Function

/-!
# Joins and groups over nullable columns

An equi-join pairs the rows of two columns that hold one value; a null is paired with nothing.
Renaming the values of both columns keeps the join, the size of every group and the number of
groups when different values get different names.
-/

namespace Common

variable {α β : Type}

/-- Rename the values of a column; nulls stay. -/
def rename (g : α → β) (column : List (Option α)) : List (Option β) := column.map (Option.map g)

section Renaming

variable {column : List (Option α)} {g : α → β}

/-- Nulls and values are told apart as before when different values get different names. -/
theorem injOn_map (hinj : ∀ a b, some a ∈ column → some b ∈ column → g a = g b → a = b) :
    Set.InjOn (Option.map g) {x | x ∈ column} := by
  intro a ha b hb h
  cases a with
  | none =>
    cases b with
    | none => rfl
    | some b => cases h
  | some a =>
    cases b with
    | none => cases h
    | some b => rw [hinj a b ha hb (Option.some.inj h)]

/-- A group keeps its size when different values get different names. -/
theorem count_map_of_injOn [BEq α] [LawfulBEq α] [BEq β] [LawfulBEq β] {xs : List α}
    (hinj : Set.InjOn g {x | x ∈ xs}) {x : α} (hx : x ∈ xs) :
    (xs.map g).count (g x) = xs.count x := by
  rw [List.count_eq_countP, List.countP_map, List.count_eq_countP]
  apply List.countP_congr
  intro y hy
  simpa using hinj.eq_iff hy hx

end Renaming

variable [DecidableEq α] [DecidableEq β]

/-- The row pairs of the equi-join of two columns, by nested loops. -/
def joinRows (left right : List (Option α)) : List (ℕ × ℕ) :=
  left.zipIdx.flatMap fun a =>
    right.zipIdx.filterMap fun b => if a.1.isSome ∧ a.1 = b.1 then some (a.2, b.2) else none

section Joins

variable {left right : List (Option α)} {g : α → β} {i j : ℕ}

/-- Rows are paired when they hold one value. -/
theorem mem_joinRows :
    (i, j) ∈ joinRows left right ↔ ∃ a, left[i]? = some (some a) ∧ right[j]? = some (some a) := by
  simp only [joinRows, List.mem_flatMap, List.mem_filterMap, Option.ite_none_right_eq_some,
    Option.some.injEq, Prod.mk.injEq]
  constructor
  · rintro ⟨⟨a, _⟩, ha, ⟨b, _⟩, hb, ⟨hsome, rfl⟩, rfl, rfl⟩
    obtain ⟨v, rfl⟩ := Option.isSome_iff_exists.mp hsome
    exact ⟨v, List.mem_zipIdx_iff_getElem?.mp ha, List.mem_zipIdx_iff_getElem?.mp hb⟩
  · intro ⟨v, ha, hb⟩
    exact ⟨(some v, i), List.mem_zipIdx_iff_getElem?.mpr ha, (some v, j),
      List.mem_zipIdx_iff_getElem?.mpr hb, ⟨rfl, rfl⟩, rfl, rfl⟩

/-- Renaming keeps a join when different values of the two columns get different names. -/
theorem joinRows_rename (hinj : ∀ a b, some a ∈ left → some b ∈ right → g a = g b → a = b) :
    joinRows (rename g left) (rename g right) = joinRows left right := by
  rw [joinRows, joinRows, rename, rename, List.zipIdx_map, List.zipIdx_map, List.flatMap_map]
  apply List.flatMap_congr
  intro a ha
  rw [List.filterMap_map]
  apply List.filterMap_congr
  intro b hb
  have hleft : a.1 ∈ left := List.fst_mem_of_mem_zipIdx ha
  have hright : b.1 ∈ right := List.fst_mem_of_mem_zipIdx hb
  obtain ⟨_ | v, i⟩ := a
  · simp
  obtain ⟨_ | w, j⟩ := b
  · simp
  have hvw : g v = g w ↔ v = w := ⟨hinj v w hleft hright, congrArg g⟩
  simp [hvw]

end Joins

section Groups

variable {xs : List α} {g : α → β}

/-- There are as many groups when different values get different names. -/
theorem length_dedup_map_of_injOn (hinj : Set.InjOn g {x | x ∈ xs}) :
    (xs.map g).dedup.length = xs.dedup.length := by
  have himage : (xs.map g).toFinset = xs.toFinset.image g := by
    ext y
    simp
  rw [← List.card_toFinset, ← List.card_toFinset, himage]
  apply Finset.card_image_of_injOn
  simpa using hinj

end Groups

end Common
