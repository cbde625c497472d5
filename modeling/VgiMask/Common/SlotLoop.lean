import VgiMask.Common.Slots

/-!
# Loops over slots

One loop records where the slots are and which values they hold; another writes new values
back at recorded marks, one checked assignment at a time. A mark may be any address from
which the position is computed. When the marks locate the slots in order and there is one
value for each, the second loop is exactly the complete rewrite of the slots.
-/

namespace Common

variable {σ ν ι ε : Type}

/-- Record the position and the value of every symbol that has a value. -/
def collectSlots (valueOf : σ → Option ν) (xs : List σ) : List ℕ × List ν :=
  xs.zipIdx.foldl
    (fun acc entry =>
      match valueOf entry.1 with
      | some v => (acc.1 ++ [entry.2], acc.2 ++ [v])
      | none => acc)
    ([], [])

/-- One assignment of the writing loop: the value of the current slot, rendered, at its mark. -/
def writeSlot (locate : ι → Outcome ε ℕ) (render : ν → Outcome ε σ) (values : List ν)
    (out : List σ) (entry : ι × ℕ) : Outcome ε (List σ) := do
  let v ← getChecked values entry.2
  let x ← render v
  let i ← locate entry.1
  setChecked out i x

/-- Assign the rendered values at the marks, in order. -/
def writeSlots (locate : ι → Outcome ε ℕ) (render : ν → Outcome ε σ) (values : List ν)
    (marks : List ι) (out : List σ) : Outcome ε (List σ) :=
  marks.zipIdx.foldlM (writeSlot locate render values) out

/-- From any accumulator, the recording loop appends the remaining positions and values. -/
private theorem collectSlots_from (valueOf : σ → Option ν) (xs : List σ) (start : ℕ)
    (positions : List ℕ) (values : List ν) :
    (xs.zipIdx start).foldl
        (fun acc entry =>
          match valueOf entry.1 with
          | some v => (acc.1 ++ [entry.2], acc.2 ++ [v])
          | none => acc)
        (positions, values) =
      (positions ++ slotIndices (fun x => (valueOf x).isSome) start xs,
        values ++ xs.filterMap valueOf) := by
  induction xs generalizing start positions values with
  | nil => simp [slotIndices]
  | cons x xs ih =>
    rw [List.zipIdx_cons, List.foldl_cons]
    cases hx : valueOf x with
    | none => simp [ih, slotIndices, hx]
    | some v => simp [ih, slotIndices, hx]

/-- The recording loop finds exactly the slot positions and the slot values. -/
theorem collectSlots_eq (valueOf : σ → Option ν) (xs : List σ) :
    collectSlots valueOf xs =
      (slotIndices (fun x => (valueOf x).isSome) 0 xs, xs.filterMap valueOf) := by
  rw [collectSlots, collectSlots_from, List.nil_append, List.nil_append]

/-- Behind a finished part, the writing loop rewrites the remaining slots. -/
private theorem writeSlots_from {p : σ → Bool} {locate : ι → Outcome ε ℕ}
    {render : ν → Outcome ε σ} {symbol : ν → σ} (used rest : List ν) (done xs : List σ)
    (marks : List ι) (hrender : ∀ v ∈ rest, render v = .ok (symbol v))
    (hmarks : List.Forall₂ (fun m i => locate m = .ok i) marks (slotIndices p done.length xs))
    (hlen : rest.length = (xs.filter p).length) :
    (marks.zipIdx used.length).foldlM (writeSlot locate render (used ++ rest)) (done ++ xs) =
      .ok (done ++ fill p xs (rest.map symbol)) := by
  induction xs generalizing used rest done marks with
  | nil =>
    have hrest : rest = [] := List.eq_nil_of_length_eq_zero (by simpa using hlen)
    cases hmarks
    simp [hrest]
  | cons x xs ih =>
    by_cases hx : p x = true
    · simp only [slotIndices, hx, if_true] at hmarks
      rw [List.filter_cons_of_pos hx] at hlen
      obtain ⟨mark, marks', hmark, hmarks', rfl⟩ := List.forall₂_cons_right_iff.mp hmarks
      cases rest with
      | nil => simp at hlen
      | cons v rest =>
        have hvalue : (used ++ v :: rest)[used.length]? = some v := by simp
        have hin : done.length < (done ++ x :: xs).length := by simp
        have hstep : writeSlot locate render (used ++ v :: rest) (done ++ x :: xs)
            (mark, used.length) = .ok ((done ++ [symbol v]) ++ xs) := by
          rw [writeSlot, getChecked_of_getElem? hvalue, Outcome.ok_bind,
            hrender v List.mem_cons_self, Outcome.ok_bind, hmark, Outcome.ok_bind,
            setChecked_of_lt _ hin]
          simp
        have htail := ih (used ++ [v]) rest (done ++ [symbol v]) marks'
          (fun w hw => hrender w (List.mem_cons_of_mem _ hw))
          (by simpa using hmarks') (by simpa using hlen)
        rw [List.zipIdx_cons, List.foldlM_cons, hstep, Outcome.ok_bind, List.map_cons,
          fill_cons_slot hx]
        simpa using htail
    · have hx' : p x = false := by simpa using hx
      simp only [slotIndices, hx', Bool.false_eq_true, if_false] at hmarks
      rw [List.filter_cons_of_neg hx] at hlen
      have htail := ih used rest (done ++ [x]) marks hrender (by simpa using hmarks) hlen
      rw [fill_cons_structure hx']
      simpa using htail

/-- With one value for each slot and marks locating the slots, the loop rewrites them all. -/
theorem writeSlots_eq_fill {p : σ → Bool} {locate : ι → Outcome ε ℕ}
    {render : ν → Outcome ε σ} {symbol : ν → σ} {values : List ν} {xs : List σ}
    {marks : List ι} (hrender : ∀ v ∈ values, render v = .ok (symbol v))
    (hmarks : List.Forall₂ (fun m i => locate m = .ok i) marks (slotIndices p 0 xs))
    (hlen : values.length = (xs.filter p).length) :
    writeSlots locate render values marks xs = .ok (fill p xs (values.map symbol)) := by
  simpa [writeSlots] using writeSlots_from [] values [] xs marks hrender hmarks hlen

end Common
