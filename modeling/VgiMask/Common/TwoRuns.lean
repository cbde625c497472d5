import VgiMask.Common.Runs
import Mathlib.Data.List.Forall2

/-!
# Two runs side by side

Two outcomes are alike when they are of one kind and return related values or the same error.
Sequencing, mapping, calling the rows of a column and running steps keep this, so two runs whose
steps are alike on related states cannot be told apart by their errors.
-/

namespace Common

namespace Outcome

variable {ε ε' α β γ δ : Type} {R : α → β → Prop} {S : γ → δ → Prop} {x : Outcome ε α} {y : Outcome ε β}

/-- The outcomes are of one kind, with related values or the same error. -/
inductive Alike (R : α → β → Prop) : Outcome ε α → Outcome ε β → Prop
  | ok {a : α} {b : β} (h : R a b) : Alike R (.ok a) (.ok b)
  | err (e : ε) : Alike R (.err e) (.err e)
  | panic : Alike R .panic .panic
  | diverge : Alike R .diverge .diverge

/-- Alike outcomes have the same errors. -/
theorem Alike.eq_err_iff (h : Alike R x y) (e : ε) : x = .err e ↔ y = .err e := by
  cases h <;> simp

/-- What returns is alike to what returns a related value. -/
theorem Alike.exists_ok {a : α} (h : Alike R (.ok a) y) : ∃ b, y = .ok b ∧ R a b := by
  cases h with
  | ok h => exact ⟨_, rfl, h⟩

/-- Sequences of alike outcomes are alike. -/
theorem Alike.bind {f : α → Outcome ε γ} {g : β → Outcome ε δ} (h : Alike R x y)
    (hnext : ∀ a b, R a b → Alike S (f a) (g b)) : Alike S (x >>= f) (y >>= g) := by
  cases h with
  | ok h => exact hnext _ _ h
  | err e => exact .err e
  | panic => exact .panic
  | diverge => exact .diverge

/-- Mapped outcomes are alike when the mapped values are related. -/
theorem Alike.map {f : α → γ} {g : β → δ} (h : Alike R x y) (hmap : ∀ a b, R a b → S (f a) (g b)) :
    Alike S (f <$> x) (g <$> y) := by
  cases h with
  | ok h => exact .ok (hmap _ _ h)
  | err e => exact .err e
  | panic => exact .panic
  | diverge => exact .diverge

/-- Converting the errors keeps outcomes alike. -/
theorem Alike.mapErr (h : Alike R x y) (g : ε → ε') : Alike R (x.mapErr g) (y.mapErr g) := by
  cases h with
  | ok h => exact .ok h
  | err e => exact .err (g e)
  | panic => exact .panic
  | diverge => exact .diverge

/-- What is known of the values that are returned may be added to the relation. -/
theorem Alike.and_returned {P : α → Prop} {Q : β → Prop} (h : Alike R x y) (hx : ∀ a, x = .ok a → P a)
    (hy : ∀ b, y = .ok b → Q b) : Alike (fun a b => P a ∧ Q b ∧ R a b) x y := by
  cases h with
  | ok h => exact .ok ⟨hx _ rfl, hy _ rfl, h⟩
  | err e => exact .err e
  | panic => exact .panic
  | diverge => exact .diverge

/-- Calls that are alike one by one are alike in a row. -/
theorem alike_mapM {f : γ → Outcome ε α} {g : δ → Outcome ε β} {xs : List γ} {ys : List δ}
    (h : List.Forall₂ (fun x y => Alike R (f x) (g y)) xs ys) :
    Alike (List.Forall₂ R) (xs.mapM f) (ys.mapM g) := by
  induction h with
  | nil => exact .ok .nil
  | cons hfirst _ ih =>
    rw [List.mapM_cons, List.mapM_cons]
    refine hfirst.bind fun a b hab => ?_
    exact ih.bind fun as bs habs => .ok (.cons hab habs)

end Outcome

open Outcome

section Steps

variable {σ τ ε α β : Type} {R : α → β → Prop} {f : σ → α → Outcome ε α} {g : τ → β → Outcome ε β}

/-- Runs of steps that are alike on related states are alike. -/
theorem alike_runSteps {steps : List σ} {steps' : List τ}
    (h : List.Forall₂ (fun s t => ∀ a b, R a b → Alike R (f s a) (g t b)) steps steps') {a : α} {b : β}
    (hab : R a b) : Alike R (runSteps f steps a) (runSteps g steps' b) := by
  induction h generalizing a b with
  | nil => exact .ok hab
  | cons hstep _ ih =>
    rw [runSteps, runSteps]
    exact (hstep a b hab).bind fun _ _ => ih

end Steps

section Rows

variable {ε β γ : Type} {R : β → γ → Prop} {g : ℕ → β → Outcome ε β} {g' : ℕ → γ → Outcome ε γ}

/-- Columns whose rows are called alike are called alike. -/
theorem alike_callRows {col : List β} {col' : List γ} (hlen : col.length = col'.length)
    (h : ∀ (i : ℕ) (c : β) (c' : γ), col[i]? = some c → col'[i]? = some c' → Alike R (g i c) (g' i c')) :
    Alike (List.Forall₂ R) (callRows g col) (callRows g' col') := by
  apply alike_mapM
  rw [List.forall₂_iff_get]
  refine ⟨by simp [hlen], fun i hi hi' => ?_⟩
  rw [List.length_zipIdx] at hi hi'
  have hrow := h i _ _ (List.getElem?_eq_getElem hi) (List.getElem?_eq_getElem hi')
  simpa using hrow

end Rows

end Common
