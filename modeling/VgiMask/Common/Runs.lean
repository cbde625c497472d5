import VgiMask.Common.RowLoop

/-!
# Runs of steps

A run performs steps one after another and stops at the first that returns no value. What
every step keeps a run keeps, and steps that can be undone are undone in reverse order. Steps
that call the rows of a column each on its own make a run that treats every row on its own;
its failure is that of the first failing step, whichever row it is in.
-/

namespace Common

variable {ε α β σ : Type}

/-- Perform the steps in order. -/
def runSteps (f : σ → α → Outcome ε α) : List σ → α → Outcome ε α
  | [], a => .ok a
  | s :: steps, a => f s a >>= runSteps f steps

/-- A step fails on what the steps before it return. -/
def FirstFailingStep (f : σ → α → Outcome ε α) (steps : List σ) (a : α) (e : ε) : Prop :=
  ∃ k s b, steps[k]? = some s ∧ runSteps f (steps.take k) a = .ok b ∧ f s b = .err e

/-- Every step of a run is undone by its counterpart. -/
def UndoneAlong (f g : σ → α → Outcome ε α) : List σ → α → Prop
  | [], _ => True
  | s :: steps, a => ∀ b, f s a = .ok b → g s b = .ok a ∧ UndoneAlong f g steps b

variable {f g : σ → α → Outcome ε α} {steps : List σ} {a b : α} {inv : α → Prop}

/-- A run of two lists of steps is one run after the other. -/
theorem runSteps_append (f : σ → α → Outcome ε α) (steps steps' : List σ) (a : α) :
    runSteps f (steps ++ steps') a = runSteps f steps a >>= runSteps f steps' := by
  induction steps generalizing a with
  | nil => rfl
  | cons s steps ih =>
    rw [List.cons_append, runSteps, runSteps, bind_assoc]
    exact congrArg (f s a >>= ·) (funext ih)

/-- A run fails exactly with its first failing step. -/
theorem runSteps_eq_err_iff {e : ε} : runSteps f steps a = .err e ↔ FirstFailingStep f steps a e := by
  induction steps generalizing a with
  | nil =>
    refine iff_of_false nofun fun ⟨k, s, b, hs, _⟩ => ?_
    cases hs
  | cons s steps ih =>
    rw [runSteps, Outcome.bind_eq_err_iff]
    constructor
    · rintro (hs | ⟨a', ha', hrest⟩)
      · exact ⟨0, s, a, rfl, rfl, hs⟩
      · obtain ⟨k, s', b, hs', hb, he⟩ := ih.mp hrest
        refine ⟨k + 1, s', b, hs', ?_, he⟩
        rw [List.take_succ_cons, runSteps, ha', Outcome.ok_bind, hb]
    · intro ⟨k, s', b, hs', hb, he⟩
      cases k with
      | zero =>
        rw [← Option.some.inj hs', ← Outcome.ok.inj hb] at he
        exact .inl he
      | succ k =>
        rw [List.take_succ_cons, runSteps] at hb
        obtain ⟨a', ha', hb⟩ := (Outcome.bind_eq_ok_iff _ _ _).mp hb
        exact .inr ⟨a', ha', ih.mpr ⟨k, s', b, hs', hb, he⟩⟩

/-- What every step keeps, a run keeps. -/
theorem runSteps_invariant (hstep : ∀ s ∈ steps, ∀ a b, inv a → f s a = .ok b → inv b) (ha : inv a)
    (h : runSteps f steps a = .ok b) : inv b := by
  induction steps generalizing a with
  | nil =>
    obtain rfl := Outcome.ok.inj h
    exact ha
  | cons s steps ih =>
    obtain ⟨hs, hsteps⟩ := List.forall_mem_cons.mp hstep
    obtain ⟨a', ha', hrest⟩ := (Outcome.bind_eq_ok_iff _ _ _).mp h
    exact ih hsteps (hs a a' ha ha') hrest

/-- Steps that agree on an invariant make the same run. -/
theorem runSteps_congr (hsame : ∀ s ∈ steps, ∀ a, inv a → f s a = g s a)
    (hstep : ∀ s ∈ steps, ∀ a b, inv a → g s a = .ok b → inv b) (ha : inv a) :
    runSteps f steps a = runSteps g steps a := by
  induction steps generalizing a with
  | nil => rfl
  | cons s steps ih =>
    obtain ⟨hs, hsteps⟩ := List.forall_mem_cons.mp hstep
    obtain ⟨hs', hsame'⟩ := List.forall_mem_cons.mp hsame
    rw [runSteps, runSteps, hs' a ha]
    cases hb : g s a with
    | ok b => exact ih hsame' hsteps (hs a b ha hb)
    | _ => rfl

/-- Steps that return on an invariant make a run that returns. -/
theorem runSteps_returns (hreturn : ∀ s ∈ steps, ∀ a, inv a → ∃ b, f s a = .ok b ∧ inv b)
    (ha : inv a) : ∃ b, runSteps f steps a = .ok b ∧ inv b := by
  induction steps generalizing a with
  | nil => exact ⟨a, rfl, ha⟩
  | cons s steps ih =>
    obtain ⟨hs, hsteps⟩ := List.forall_mem_cons.mp hreturn
    obtain ⟨b, hb, hinv⟩ := hs a ha
    obtain ⟨c, hc, hinv'⟩ := ih hsteps hinv
    exact ⟨c, by rw [runSteps, hb, Outcome.ok_bind, hc], hinv'⟩

/-- Steps that answer on an invariant make a run that answers. -/
theorem runSteps_answers (hanswer : ∀ s ∈ steps, ∀ a, inv a → (f s a).Answers)
    (hstep : ∀ s ∈ steps, ∀ a b, inv a → f s a = .ok b → inv b) (ha : inv a) :
    (runSteps f steps a).Answers := by
  induction steps generalizing a with
  | nil => exact ⟨nofun, nofun⟩
  | cons s steps ih =>
    obtain ⟨hs, hsteps⟩ := List.forall_mem_cons.mp hstep
    obtain ⟨hs', hanswer'⟩ := List.forall_mem_cons.mp hanswer
    rw [runSteps]
    rcases (hs' a ha).ok_or_err with ⟨b, hb⟩ | ⟨e, he⟩
    · rw [hb]
      exact ih hanswer' hsteps (hs a b ha hb)
    · rw [he]
      exact ⟨nofun, nofun⟩

/-- Steps that are undone along a run are undone in reverse order. -/
theorem runSteps_undo (hundone : UndoneAlong f g steps a) (h : runSteps f steps a = .ok b) :
    runSteps g steps.reverse b = .ok a := by
  induction steps generalizing a with
  | nil =>
    obtain rfl := Outcome.ok.inj h
    rfl
  | cons s steps ih =>
    obtain ⟨a', ha', hrest⟩ := (Outcome.bind_eq_ok_iff _ _ _).mp h
    obtain ⟨hback, htail⟩ := hundone a' ha'
    rw [List.reverse_cons, runSteps_append, ih htail hrest, Outcome.ok_bind, runSteps, hback]
    rfl

section Rows

/-- Call the rows of a column in order. -/
def callRows (g : ℕ → β → Outcome ε β) (col : List β) : Outcome ε (List β) :=
  col.zipIdx.mapM fun p => g p.2 p.1

variable {col out : List β}

/-- A column is returned exactly when every row returns its cell. -/
theorem callRows_eq_ok_iff (g : ℕ → β → Outcome ε β) :
    callRows g col = .ok out ↔
      out.length = col.length ∧
        ∀ (i : ℕ) (c : β), col[i]? = some c → ∃ c', out[i]? = some c' ∧ g i c = .ok c' := by
  have hplace (i : ℕ) (c : β) (hc : col[i]? = some c) : col.zipIdx[i]? = some (c, i) := by
    rw [List.getElem?_zipIdx, hc, Option.map_some, Nat.zero_add]
  rw [callRows, mapM_eq_ok_iff, List.length_zipIdx]
  apply and_congr_right
  intro _
  constructor
  · intro hrows i c hc
    exact hrows i (c, i) (hplace i c hc)
  · intro hrows i p hp
    rw [List.getElem?_zipIdx, Nat.zero_add] at hp
    obtain ⟨c, hc, rfl⟩ := Option.map_eq_some_iff.mp hp
    exact hrows i c hc

/-- A run over columns returns exactly when the run of every row does, with its cells. -/
theorem runSteps_callRows_eq_ok_iff (g : σ → ℕ → β → Outcome ε β) :
    runSteps (fun s => callRows (g s)) steps col = .ok out ↔
      out.length = col.length ∧ ∀ (i : ℕ) (c : β), col[i]? = some c →
        ∃ c', out[i]? = some c' ∧ runSteps (fun s => g s i) steps c = .ok c' := by
  induction steps generalizing col with
  | nil =>
    constructor
    · intro h
      obtain rfl := Outcome.ok.inj h
      exact ⟨rfl, fun i c hc => ⟨c, hc, rfl⟩⟩
    · intro ⟨hlen, hrows⟩
      have hsame : col = out := by
        apply List.ext_getElem hlen.symm
        intro i hi hi'
        obtain ⟨c', hc', hrun⟩ := hrows i _ (List.getElem?_eq_getElem hi)
        rw [List.getElem?_eq_getElem hi', Option.some.injEq] at hc'
        exact (Outcome.ok.inj hrun).trans hc'.symm
      rw [hsame]
      rfl
  | cons s steps ih =>
    rw [runSteps, Outcome.bind_eq_ok_iff]
    constructor
    · intro ⟨mid, hmid, hrest⟩
      obtain ⟨hlen, hrows⟩ := (callRows_eq_ok_iff _).mp hmid
      obtain ⟨hlen', hrows'⟩ := ih.mp hrest
      refine ⟨hlen'.trans hlen, fun i c hc => ?_⟩
      obtain ⟨d, hd, hg⟩ := hrows i c hc
      obtain ⟨c', hc', hrun⟩ := hrows' i d hd
      exact ⟨c', hc', by rw [runSteps, hg, Outcome.ok_bind, hrun]⟩
    · intro ⟨hlen, hrows⟩
      have hreturn : ∀ p ∈ col.zipIdx, ∃ d, g s p.2 p.1 = .ok d := by
        intro p hp
        obtain ⟨c', -, hrun⟩ := hrows p.2 p.1 (List.mem_zipIdx_iff_getElem?.mp hp)
        obtain ⟨d, hd, -⟩ := (Outcome.bind_eq_ok_iff _ _ _).mp hrun
        exact ⟨d, hd⟩
      obtain ⟨mid, hmid⟩ := (exists_mapM_eq_ok_iff _ _).mpr hreturn
      obtain ⟨hlenMid, hrowsMid⟩ := (callRows_eq_ok_iff _).mp hmid
      refine ⟨mid, hmid, ih.mpr ⟨hlen.trans hlenMid.symm, fun i d hd => ?_⟩⟩
      have hi : i < col.length := hlenMid ▸ (List.getElem?_eq_some_iff.mp hd).1
      obtain ⟨c', hc', hrun⟩ := hrows i _ (List.getElem?_eq_getElem hi)
      obtain ⟨d', hd', hg⟩ := hrowsMid i _ (List.getElem?_eq_getElem hi)
      rw [hd, Option.some.injEq] at hd'
      rw [runSteps, hg, Outcome.ok_bind, ← hd'] at hrun
      exact ⟨c', hc', hrun⟩

/-- A column fails exactly with the first failing row. -/
theorem callRows_eq_err_iff (g : ℕ → β → Outcome ε β) (e : ε) :
    callRows g col = .err e ↔ ∃ i c, col[i]? = some c ∧ g i c = .err e ∧
      ∀ j < i, ∀ c', col[j]? = some c' → ∃ d, g j c' = .ok d := by
  rw [callRows, mapM_eq_err_iff]
  constructor
  · intro ⟨i, p, hp, he, hbefore⟩
    rw [List.getElem?_zipIdx, Nat.zero_add] at hp
    obtain ⟨c, hc, rfl⟩ := Option.map_eq_some_iff.mp hp
    refine ⟨i, c, hc, he, fun j hj c' hc' => ?_⟩
    exact hbefore j hj (c', j) (by rw [List.getElem?_zipIdx, hc', Option.map_some, Nat.zero_add])
  · intro ⟨i, c, hc, he, hbefore⟩
    have hp : col.zipIdx[i]? = some (c, i) := by
      rw [List.getElem?_zipIdx, hc, Option.map_some, Nat.zero_add]
    refine ⟨i, (c, i), hp, he, fun j hj p hp => ?_⟩
    rw [List.getElem?_zipIdx, Nat.zero_add] at hp
    obtain ⟨c', hc', rfl⟩ := Option.map_eq_some_iff.mp hp
    exact hbefore j hj c' hc'

/-- Calling rows depends on the cells of the column only. -/
theorem callRows_congr {g g' : ℕ → β → Outcome ε β}
    (h : ∀ (i : ℕ) (c : β), col[i]? = some c → g i c = g' i c) : callRows g col = callRows g' col :=
  mapM_congr_mem fun _ hp => h _ _ (List.mem_zipIdx_iff_getElem?.mp hp)

/-- Calls that cannot fail behind others are joined with them, from any index on. -/
theorem mapM_zipIdx_bind {g g' : ℕ → β → Outcome ε β} {col : List β} {start : ℕ}
    (hreturn : ∀ (k : ℕ) (c d : β), col[k]? = some c →
      g (start + k) c = .ok d → ∃ d', g' (start + k) d = .ok d') :
    ((col.zipIdx start).mapM (fun p => g p.2 p.1) >>= fun mid =>
        (mid.zipIdx start).mapM fun p => g' p.2 p.1) =
      (col.zipIdx start).mapM fun p => g p.2 p.1 >>= g' p.2 := by
  induction col generalizing start with
  | nil => rfl
  | cons c col ih =>
    have htail : ∀ (k : ℕ) (c' d : β), col[k]? = some c' →
        g (start + 1 + k) c' = .ok d → ∃ d', g' (start + 1 + k) d = .ok d' := by
      intro k c' d hc' hd
      have hk : start + 1 + k = start + (k + 1) := by omega
      rw [hk] at hd ⊢
      exact hreturn (k + 1) c' d hc' hd
    simp only [List.zipIdx_cons, List.mapM_cons]
    cases hd : g start c with
    | ok d =>
      obtain ⟨d', hd'⟩ := hreturn 0 c d rfl hd
      rw [Nat.add_zero] at hd'
      simp only [Outcome.ok_bind, bind_assoc, pure_bind, List.zipIdx_cons, List.mapM_cons, hd']
      rw [← ih htail, bind_assoc]
    | _ => rfl

/-- A call of rows that cannot fail behind another is joined with it row by row. -/
theorem callRows_bind {g g' : ℕ → β → Outcome ε β}
    (hreturn : ∀ (i : ℕ) (c d : β), col[i]? = some c → g i c = .ok d → ∃ d', g' i d = .ok d') :
    callRows g col >>= callRows g' = callRows (fun i c => g i c >>= g' i) col :=
  mapM_zipIdx_bind fun k c d hc hd => by
    rw [Nat.zero_add] at hd ⊢
    exact hreturn k c d hc hd

end Rows

end Common
