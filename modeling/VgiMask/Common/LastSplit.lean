import Mathlib.Data.List.Basic

/-!
# Splitting at the last separator

The split keeps everything before the last separator and everything after it. Its two
characterizations make the split of a rebuilt text computable without searching it again.
-/

namespace Common

variable {σ : Type} [DecidableEq σ]

/-- The parts before and after the last separator, if there is one. -/
def rsplitOnce (sep : σ) : List σ → Option (List σ × List σ)
  | [] => none
  | x :: xs =>
    match rsplitOnce sep xs with
    | some (left, right) => some (x :: left, right)
    | none => if x = sep then some ([], xs) else none

/-- There is no split exactly when there is no separator. -/
theorem rsplitOnce_eq_none_iff (sep : σ) (xs : List σ) : rsplitOnce sep xs = none ↔ sep ∉ xs := by
  induction xs with
  | nil => simp [rsplitOnce]
  | cons x xs ih =>
    rw [rsplitOnce]
    cases hrest : rsplitOnce sep xs with
    | some parts =>
      have hmem : sep ∈ xs := by
        by_contra hnot
        rw [ih.mpr hnot] at hrest
        cases hrest
      simp [hmem]
    | none =>
      have hnot := ih.mp hrest
      by_cases hx : x = sep
      · simp [hx]
      · simp [hx, hnot, Ne.symm hx]

/-- The split is the decomposition whose right part has no separator. -/
theorem rsplitOnce_eq_some_iff (sep : σ) (xs left right : List σ) :
    rsplitOnce sep xs = some (left, right) ↔ xs = left ++ sep :: right ∧ sep ∉ right := by
  induction xs generalizing left with
  | nil => simp [rsplitOnce]
  | cons x xs ih =>
    rw [rsplitOnce]
    cases hrest : rsplitOnce sep xs with
    | some parts =>
      obtain ⟨left', right'⟩ := parts
      have hmem : sep ∈ xs := by
        by_contra hnot
        rw [(rsplitOnce_eq_none_iff sep xs).mpr hnot] at hrest
        cases hrest
      constructor
      · intro h
        obtain ⟨rfl, rfl⟩ := Prod.mk.inj (Option.some.inj h)
        obtain ⟨hxs, hright⟩ := (ih left').mp hrest
        exact ⟨by rw [hxs]; rfl, hright⟩
      · intro ⟨hxs, hright⟩
        cases left with
        | nil =>
          obtain ⟨-, rfl⟩ := List.cons.inj hxs
          exact absurd hmem hright
        | cons y left =>
          obtain ⟨rfl, htail⟩ := List.cons.inj hxs
          have h := (ih left).mpr ⟨htail, hright⟩
          rw [hrest] at h
          obtain ⟨rfl, rfl⟩ := Prod.mk.inj (Option.some.inj h)
          rfl
    | none =>
      have hnot := (rsplitOnce_eq_none_iff sep xs).mp hrest
      constructor
      · intro h
        by_cases hx : x = sep
        · rw [if_pos hx] at h
          obtain ⟨rfl, rfl⟩ := Prod.mk.inj (Option.some.inj h)
          exact ⟨by rw [hx]; rfl, hnot⟩
        · simp [hx] at h
      · intro ⟨hxs, hright⟩
        cases left with
        | nil =>
          obtain ⟨hx, rfl⟩ := List.cons.inj hxs
          rw [if_pos hx]
        | cons y left =>
          obtain ⟨-, hxs⟩ := List.cons.inj hxs
          exact absurd (hxs ▸ List.mem_append_right left List.mem_cons_self) hnot

/-- A text put together around a separator is split there again. -/
theorem rsplitOnce_append {sep : σ} {right : List σ} (h : sep ∉ right) (left : List σ) :
    rsplitOnce sep (left ++ sep :: right) = some (left, right) :=
  (rsplitOnce_eq_some_iff sep _ left right).mpr ⟨rfl, h⟩

/-- A relabelling that tells the separator from the rest does not move the split. -/
theorem rsplitOnce_map {τ : Type} [DecidableEq τ] {f : σ → τ} {sep : σ}
    (hsep : ∀ x, f x = f sep → x = sep) (xs : List σ) :
    rsplitOnce (f sep) (xs.map f) =
      (rsplitOnce sep xs).map fun parts => (parts.1.map f, parts.2.map f) := by
  induction xs with
  | nil => rfl
  | cons x xs ih =>
    rw [List.map_cons, rsplitOnce, ih, rsplitOnce]
    cases rsplitOnce sep xs with
    | some parts => rfl
    | none =>
      by_cases hx : x = sep
      · simp [hx]
      · have hfx : f x ≠ f sep := fun h => hx (hsep x h)
        simp [hx, hfx]

end Common
