import Mathlib.Algebra.Order.Ring.Nat
import Mathlib.Data.List.Basic

/-!
# Outcomes of checked code

A call of checked code returns a value, returns an error, panics, or never returns. The
four cases stay distinct, so a statement that a call returns a value excludes the other
three. Indexing, slicing and fixed-width arithmetic panic outside their range, which is
what the checked build of such code does.
-/

namespace Common

/-- What a call yields: a value, an error, a panic, or no return at all. -/
inductive Outcome (ε α : Type) where
  | ok (value : α)
  | err (error : ε)
  | panic
  | diverge
  deriving DecidableEq, Repr

namespace Outcome

variable {ε ε' α β γ : Type}

/-- Sequencing stops at the first outcome that is no value. -/
def bind (x : Outcome ε α) (f : α → Outcome ε β) : Outcome ε β :=
  match x with
  | ok a => f a
  | err e => err e
  | panic => panic
  | diverge => diverge

instance : Monad (Outcome ε) where
  pure := ok
  bind := bind

/-- A returned error is converted; every other outcome is kept. -/
def mapErr (g : ε → ε') : Outcome ε α → Outcome ε' α
  | ok a => ok a
  | err e => err (g e)
  | panic => panic
  | diverge => diverge

@[simp] theorem pure_eq (a : α) : (pure a : Outcome ε α) = ok a := rfl
@[simp] theorem ok_bind (a : α) (f : α → Outcome ε β) : (ok a >>= f) = f a := rfl
@[simp] theorem err_bind (e : ε) (f : α → Outcome ε β) : (err e >>= f) = err e := rfl
@[simp] theorem panic_bind (f : α → Outcome ε β) : (panic >>= f) = panic := rfl
@[simp] theorem diverge_bind (f : α → Outcome ε β) : (diverge >>= f) = diverge := rfl
@[simp] theorem map_ok (f : α → β) (a : α) : f <$> (ok a : Outcome ε α) = ok (f a) := rfl
@[simp] theorem map_err (f : α → β) (e : ε) : f <$> (err e : Outcome ε α) = err e := rfl
@[simp] theorem map_panic (f : α → β) : f <$> (panic : Outcome ε α) = panic := rfl
@[simp] theorem map_diverge (f : α → β) : f <$> (diverge : Outcome ε α) = diverge := rfl
@[simp] theorem mapErr_ok (g : ε → ε') (a : α) : mapErr g (ok a) = ok a := rfl
@[simp] theorem mapErr_err (g : ε → ε') (e : ε) : mapErr g (err e : Outcome ε α) = err (g e) := rfl

instance : LawfulMonad (Outcome ε) :=
  LawfulMonad.mk' _ (fun x => by cases x <;> rfl) (fun _ _ => rfl) fun x _ _ => by cases x <;> rfl

/-- A sequence returns a value exactly when both of its parts do. -/
theorem bind_eq_ok_iff (x : Outcome ε α) (f : α → Outcome ε β) (b : β) :
    (x >>= f) = ok b ↔ ∃ a, x = ok a ∧ f a = ok b := by
  cases x <;> simp

/-- A sequence fails with the error of its first part or of its second. -/
theorem bind_eq_err_iff (x : Outcome ε α) (f : α → Outcome ε β) (e : ε) :
    (x >>= f) = err e ↔ x = err e ∨ ∃ a, x = ok a ∧ f a = err e := by
  cases x <;> simp

/-- A sequence panics exactly when one of its parts does. -/
theorem bind_eq_panic_iff (x : Outcome ε α) (f : α → Outcome ε β) :
    (x >>= f) = panic ↔ x = panic ∨ ∃ a, x = ok a ∧ f a = panic := by
  cases x <;> simp

/-- A mapped call returns exactly the images of the returned values. -/
theorem map_eq_ok_iff (f : α → β) (x : Outcome ε α) (b : β) :
    f <$> x = ok b ↔ ∃ a, x = ok a ∧ f a = b := by
  cases x <;> simp

/-- A mapped call returns the same errors. -/
theorem map_eq_err_iff (f : α → β) (x : Outcome ε α) (e : ε) : f <$> x = err e ↔ x = err e := by
  cases x <;> simp

/-- A mapped call panics exactly when the call does. -/
theorem map_eq_panic_iff (f : α → β) (x : Outcome ε α) : f <$> x = panic ↔ x = panic := by
  cases x <;> simp

/-- A mapped call returns a value exactly when the call does. -/
theorem exists_map_eq_ok_iff (f : α → β) (x : Outcome ε α) :
    (∃ b, f <$> x = ok b) ↔ ∃ a, x = ok a := by
  cases x <;> simp

/-- Converting errors keeps exactly the returned values. -/
@[simp] theorem mapErr_eq_ok_iff (g : ε → ε') (x : Outcome ε α) (a : α) :
    mapErr g x = ok a ↔ x = ok a := by
  cases x <;> simp [mapErr]

end Outcome

variable {ε α : Type}

/-- Indexing panics past the end. -/
def getChecked (xs : List α) (i : ℕ) : Outcome ε α :=
  match xs[i]? with
  | some a => .ok a
  | none => .panic

/-- Assignment to an index panics past the end. -/
def setChecked (xs : List α) (i : ℕ) (a : α) : Outcome ε (List α) :=
  if i < xs.length then .ok (xs.set i a) else .panic

/-- The slice up to `n` panics past the end. -/
def takeChecked (xs : List α) (n : ℕ) : Outcome ε (List α) :=
  if n ≤ xs.length then .ok (xs.take n) else .panic

/-- Unsigned subtraction panics below zero. -/
def subChecked (a b : ℕ) : Outcome ε ℕ :=
  if b ≤ a then .ok (a - b) else .panic

/-- Unsigned addition panics when the sum does not fit the width. -/
def addChecked (bits a b : ℕ) : Outcome ε ℕ :=
  if a + b < 2 ^ bits then .ok (a + b) else .panic

namespace Outcome

/-- A value or an error is returned: no panic, and no call that never returns. -/
def Answers (x : Outcome ε α) : Prop := x ≠ panic ∧ x ≠ diverge

/-- Every error that is returned satisfies a predicate. -/
def ErrsIn (E : ε → Prop) (x : Outcome ε α) : Prop := ∀ e, x = err e → E e

variable {β : Type} {E : ε → Prop}

/-- An answer is a value or an error. -/
theorem Answers.ok_or_err {x : Outcome ε α} (h : x.Answers) : (∃ a, x = ok a) ∨ ∃ e, x = err e := by
  cases x with
  | ok a => exact .inl ⟨a, rfl⟩
  | err e => exact .inr ⟨e, rfl⟩
  | panic => exact absurd rfl h.1
  | diverge => exact absurd rfl h.2

/-- A sequence of answering parts answers. -/
theorem Answers.bind {x : Outcome ε α} {f : α → Outcome ε β} (hx : x.Answers)
    (hf : ∀ a, (f a).Answers) : (x >>= f).Answers := by
  rcases hx.ok_or_err with ⟨a, rfl⟩ | ⟨e, rfl⟩
  · exact hf a
  · exact ⟨nofun, nofun⟩

/-- A mapped answer is an answer. -/
theorem Answers.map {x : Outcome ε α} (hx : x.Answers) (f : α → β) : (f <$> x).Answers := by
  rcases hx.ok_or_err with ⟨a, rfl⟩ | ⟨e, rfl⟩
  · exact ⟨nofun, nofun⟩
  · exact ⟨nofun, nofun⟩

/-- An answer with its error converted is an answer. -/
theorem Answers.mapErr {ε' : Type} {x : Outcome ε α} (hx : x.Answers) (g : ε → ε') :
    (x.mapErr g).Answers := by
  rcases hx.ok_or_err with ⟨a, rfl⟩ | ⟨e, rfl⟩
  · exact ⟨nofun, nofun⟩
  · exact ⟨nofun, nofun⟩

/-- A returned value is no error. -/
theorem errsIn_ok (a : α) : (ok a : Outcome ε α).ErrsIn E := by
  intro e he
  cases he

/-- A single error satisfies the predicate when it does. -/
theorem errsIn_err {e : ε} (h : E e) : (err e : Outcome ε α).ErrsIn E := by
  intro e' he
  rwa [← err.inj he]

/-- A sequence returns errors of its two parts only. -/
theorem ErrsIn.bind {x : Outcome ε α} {f : α → Outcome ε β} (hx : x.ErrsIn E)
    (hf : ∀ a, (f a).ErrsIn E) : (x >>= f).ErrsIn E := by
  intro e he
  cases x with
  | ok a => exact hf a e he
  | err e' => exact hx e (congrArg err (err.inj he))
  | panic => cases he
  | diverge => cases he

/-- A loop returns errors of its steps only. -/
theorem ErrsIn.foldlM {f : β → α → Outcome ε β} (hf : ∀ b a, (f b a).ErrsIn E) (xs : List α) (b : β) :
    (xs.foldlM f b).ErrsIn E := by
  induction xs generalizing b with
  | nil => nofun
  | cons x xs ih => exact ErrsIn.bind (hf b x) ih

/-- A collecting loop returns errors of its steps only. -/
theorem ErrsIn.mapM {f : α → Outcome ε β} (hf : ∀ a, (f a).ErrsIn E) (xs : List α) :
    (xs.mapM f).ErrsIn E := by
  induction xs with
  | nil => nofun
  | cons x xs ih =>
    rw [List.mapM_cons]
    exact ErrsIn.bind (hf x) fun y => ErrsIn.bind ih fun ys => nofun

end Outcome

section NoErrors

variable {E : ε → Prop}

/-- Indexing panics or returns a value. -/
theorem getChecked_errsIn (xs : List α) (i : ℕ) : (getChecked xs i : Outcome ε α).ErrsIn E := by
  unfold getChecked
  split <;> nofun

/-- Assignment panics or returns a list. -/
theorem setChecked_errsIn (xs : List α) (i : ℕ) (a : α) :
    (setChecked xs i a : Outcome ε (List α)).ErrsIn E := by
  unfold setChecked
  split <;> nofun

/-- Slicing panics or returns a list. -/
theorem takeChecked_errsIn (xs : List α) (n : ℕ) :
    (takeChecked xs n : Outcome ε (List α)).ErrsIn E := by
  unfold takeChecked
  split <;> nofun

/-- Subtraction panics or returns a number. -/
theorem subChecked_errsIn (a b : ℕ) : (subChecked a b : Outcome ε ℕ).ErrsIn E := by
  unfold subChecked
  split <;> nofun

/-- Addition panics or returns a number. -/
theorem addChecked_errsIn (bits a b : ℕ) : (addChecked bits a b : Outcome ε ℕ).ErrsIn E := by
  unfold addChecked
  split <;> nofun

end NoErrors

/-- A present index is read. -/
theorem getChecked_of_getElem? {xs : List α} {i : ℕ} {a : α} (h : xs[i]? = some a) :
    (getChecked xs i : Outcome ε α) = .ok a := by
  simp [getChecked, h]

/-- An index inside the list is assigned. -/
theorem setChecked_of_lt {xs : List α} {i : ℕ} (a : α) (h : i < xs.length) :
    (setChecked xs i a : Outcome ε (List α)) = .ok (xs.set i a) := if_pos h

/-- A slice inside the list is taken. -/
theorem takeChecked_of_le {xs : List α} {n : ℕ} (h : n ≤ xs.length) :
    (takeChecked xs n : Outcome ε (List α)) = .ok (xs.take n) := if_pos h

/-- A subtraction that stays unsigned returns the difference. -/
theorem subChecked_of_le {a b : ℕ} (h : b ≤ a) : (subChecked a b : Outcome ε ℕ) = .ok (a - b) :=
  if_pos h

/-- A sum that fits the width is returned. -/
theorem addChecked_of_lt {bits a b : ℕ} (h : a + b < 2 ^ bits) :
    (addChecked bits a b : Outcome ε ℕ) = .ok (a + b) := if_pos h

/-- A loop that collects one result per item returns them all when every step returns one. -/
theorem mapM_map_eq_ok {β γ : Type} (f : β → Outcome ε γ) (h : α → β) (g : α → γ) (xs : List α)
    (hstep : ∀ x ∈ xs, f (h x) = .ok (g x)) : (xs.map h).mapM f = .ok (xs.map g) := by
  induction xs with
  | nil => rfl
  | cons x xs ih =>
    rw [List.map_cons, List.mapM_cons, hstep x List.mem_cons_self,
      ih fun y hy => hstep y (List.mem_cons_of_mem _ hy)]
    rfl

end Common
