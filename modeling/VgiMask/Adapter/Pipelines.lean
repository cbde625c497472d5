import VgiMask.Adapter.Harness
import VgiMask.Common.Runs

/-!
# Calls on the results of calls

A query nests the functions over one column in one batch: the value column of a call is the result
of the call inside it, and the other operands are columns of the same rows. A query that is run in
several batches can meet the failure of another call first. However many calls are nested, every row
is treated on its own, a null operand anywhere makes the row null, and a failure is that of
the innermost call that has a faulty row. No nesting of calls on columns that fit panics,
unless tokens of more rows than the builder holds are asked for.
-/

namespace VgiMask

open Common

/-- A call with its operand columns, except the value column. -/
structure Call where
  adapter : Adapter
  operands : List (List (Option Text))

namespace Call

/-- The operands of a row, the first of them a given value. -/
def operand (call : Call) (i : ℕ) (v : Option Text) : ℕ → Option Text
  | 0 => v
  | j + 1 => cellsAt call.operands i j

/-- The result cell of a row for a given value. -/
def cell (C : Crypto) (call : Call) (i : ℕ) (v : Option Text) : Outcome RpcError (Option Text) :=
  cellOf (call.adapter.answer C) fun j => call.operand i v j

/-- The operand columns are there, have one cell for each of `n` rows and fit. -/
structure Fits (call : Call) (n : ℕ) : Prop where
  table : Tabular call.operands n
  arity_le : call.adapter.arity ≤ call.operands.length + 1

/-- An operand of a row other than its value is null. -/
def NullAt (call : Call) (i : ℕ) : Prop :=
  ∃ j, j + 1 < call.adapter.arity ∧ cellsAt call.operands i j = none

/-- Run the call on a value column. -/
def run (C : Crypto) (call : Call) (column : List (Option Text)) :
    Outcome RpcError (List (Option Text)) :=
  runScalar C call.adapter (column :: call.operands)

end Call

/-- Run nested calls on a value column, the innermost first. -/
def runCalls (C : Crypto) (calls : List Call) (column : List (Option Text)) :
    Outcome RpcError (List (Option Text)) :=
  runSteps (Call.run C) calls column

/-- A value column of `n` rows that fits. -/
def FitsColumn (n : ℕ) (column : List (Option Text)) : Prop :=
  column.length = n ∧ columnSize column ≤ i32Max

/-- The tokens of `n` rows fit if some call makes tokens. -/
def TokensFit (calls : List Call) (n : ℕ) : Prop :=
  ∀ call ∈ calls, call.adapter = .token → 32 * n ≤ i32Max

section Sizes

variable {C : Crypto} {call : Call} {n : ℕ} {column : List (Option Text)}

/-- A row of a call has the operands of the row of its columns. -/
theorem cellsAt_cons (call : Call) (column : List (Option Text)) (i j : ℕ) :
    cellsAt (column :: call.operands) i j = call.operand i column[i]?.join j := by
  cases j <;> rfl

/-- A row of the columns of a call has its result cell. -/
theorem scalarCell_call (C : Crypto) (call : Call) (column : List (Option Text)) (i : ℕ) :
    call.adapter.scalarCell C (column :: call.operands) i = call.cell C i column[i]?.join := by
  rw [Adapter.scalarCell, Call.cell]
  congr 1
  funext j
  exact cellsAt_cons call column i j

/-- A result cell is a token's size at most, and otherwise no larger than its value. -/
theorem cellSize_call_le (hpres : Ff1Preserves C Numerals) {i : ℕ} {v c : Option Text}
    (h : call.cell C i v = .ok c) :
    cellSize c ≤ if call.adapter = .token then 32 else cellSize v := by
  obtain ⟨adapter, operands⟩ := call
  unfold Call.cell cellOf at h
  dsimp only at h ⊢
  split at h
  · rename_i ops hops
    have hvalue := (allSome_eq_some_iff _ _).mp hops ⟨0, adapter.arity_pos⟩
    change v = some _ at hvalue
    obtain ⟨s, hs, rfl⟩ := (Outcome.map_eq_ok_iff _ _ _).mp h
    rw [Outcome.mapErr_eq_ok_iff] at hs
    rw [hvalue]
    cases adapter with
    | fpe forward => exact Nat.le_of_eq (Adapter.utf8Len_answer_fpe hpres hs)
    | redact => exact Adapter.utf8Len_answer_redact hs
    | token =>
      have hkey : ops 1 ≠ [] := by
        intro hnil
        rw [Adapter.answer, hnil, token_nil_key] at hs
        cases hs
      obtain ⟨t, ht, hlen⟩ := token_eq_ok C (ops 0) hkey
      rw [Adapter.answer, ht] at hs
      rw [← Outcome.ok.inj hs]
      exact Nat.le_of_eq hlen
  · obtain rfl := Outcome.ok.inj h
    exact Nat.zero_le _

/-- The cells that a call writes fit when its tokens and its values do. -/
theorem returned_call_le (hpres : Ff1Preserves C Numerals)
    (htoken : call.adapter = .token → 32 * n ≤ i32Max) (hcolumn : FitsColumn n column) :
    ((returned (call.adapter.scalarCell C (column :: call.operands)) (List.range n)).map
      cellSize).sum ≤ i32Max := by
  have hrow : ∀ i ∈ List.range n, ∀ c,
      call.adapter.scalarCell C (column :: call.operands) i = .ok c →
        cellSize c ≤ if call.adapter = .token then 32 else cellSize column[i]?.join := by
    intro i _ c hc
    rw [scalarCell_call] at hc
    exact cellSize_call_le hpres hc
  refine (sum_returned_le _ hrow).trans ?_
  by_cases hadapter : call.adapter = .token
  · simpa [hadapter, Nat.mul_comm] using htoken hadapter
  · simp only [if_neg hadapter]
    have hsize : ((List.range n).map fun i => cellSize column[i]?.join) = column.map cellSize := by
      rw [← hcolumn.1]
      conv_rhs => rw [← map_range_getElem?_join column, List.map_map]
      rfl
    rw [hsize]
    exact hcolumn.2

/-- On columns that fit, the rows are called in order, and what they write fits. -/
theorem run_eq_mapM (hpres : Ff1Preserves C Numerals)
    (htoken : call.adapter = .token → 32 * n ≤ i32Max) (hcall : call.Fits n)
    (hcolumn : FitsColumn n column) :
    call.run C column =
      (List.range n).mapM (call.adapter.scalarCell C (column :: call.operands)) := by
  have htable : Tabular (column :: call.operands) n := by
    constructor
    · exact List.forall_mem_cons.mpr ⟨hcolumn.1, hcall.table.length_eq⟩
    · exact List.forall_mem_cons.mpr ⟨hcolumn.2, hcall.table.fits⟩
  rw [Call.run, Adapter.runScalar_eq htable hcall.arity_le,
    if_pos (returned_call_le hpres htoken hcolumn)]

/-- On columns that fit, a call calls the rows of its value column in order. -/
theorem run_eq_callRows (hpres : Ff1Preserves C Numerals)
    (htoken : call.adapter = .token → 32 * n ≤ i32Max) (hcall : call.Fits n)
    (hcolumn : FitsColumn n column) : call.run C column = callRows (call.cell C) column := by
  have hrange : List.range n = column.zipIdx.map Prod.snd := by
    rw [List.zipIdx_map_snd, hcolumn.1, List.range_eq_range']
  rw [run_eq_mapM hpres htoken hcall hcolumn, callRows, hrange, List.mapM_map]
  apply mapM_congr_mem
  intro p hp
  have hget : column[p.2]? = some p.1 := List.mem_zipIdx_iff_getElem?.mp hp
  rw [Function.comp_apply, scalarCell_call, hget]
  rfl

/-- What a call returns fits. -/
theorem fitsColumn_of_run (hpres : Ff1Preserves C Numerals)
    (htoken : call.adapter = .token → 32 * n ≤ i32Max) (hcall : call.Fits n)
    (hcolumn : FitsColumn n column) {out : List (Option Text)} (h : call.run C column = .ok out) :
    FitsColumn n out := by
  rw [run_eq_mapM hpres htoken hcall hcolumn] at h
  have hwritten := returned_call_le hpres htoken hcolumn
  rw [returned_of_mapM_eq_ok h] at hwritten
  obtain ⟨hlen, -⟩ := getElem?_of_mapM_eq_ok h
  rw [List.length_range] at hlen
  exact ⟨hlen, hwritten⟩

end Sizes

section Rows

variable {C : Crypto} {call : Call} {i : ℕ}

/-- A returned cell is null exactly when the value or an operand of the row is. -/
theorem call_cell_eq_none_iff {v c : Option Text} (h : call.cell C i v = .ok c) :
    c = none ↔ v = none ∨ call.NullAt i := by
  have hnull : (∃ j : Fin call.adapter.arity, call.operand i v j = none) ↔ v = none ∨ call.NullAt i := by
    constructor
    · rintro ⟨⟨j, hj⟩, hnone⟩
      cases j with
      | zero => exact .inl hnone
      | succ j => exact .inr ⟨j, hj, hnone⟩
    · rintro (hnone | ⟨j, hj, hnone⟩)
      · exact ⟨⟨0, call.adapter.arity_pos⟩, hnone⟩
      · exact ⟨⟨j + 1, hj⟩, hnone⟩
  rw [← hnull, ← allSome_eq_none_iff fun j : Fin call.adapter.arity => call.operand i v j]
  unfold Call.cell cellOf at h
  split at h
  · rename_i ops hops
    obtain ⟨s, -, rfl⟩ := (Outcome.map_eq_ok_iff _ _ _).mp h
    rw [hops]
    exact iff_of_false nofun nofun
  · rename_i hops
    obtain rfl := Outcome.ok.inj h
    exact iff_of_true rfl hops

/-- Where FF1 answers, every row of a call has a cell or an error. -/
theorem call_cell_answers (hans : Ff1Answers C Numerals) (hpres : Ff1Preserves C Numerals)
    (call : Call) (i : ℕ) (v : Option Text) : (call.cell C i v).Answers := by
  unfold Call.cell cellOf
  split
  · exact ((Adapter.answer_answers hans hpres _).mapErr valueError).map some
  · exact ⟨nofun, nofun⟩

/-- Through nested calls a row is null exactly when its value or an operand of a call is. -/
theorem runCells_eq_none_iff {calls : List Call} {v c : Option Text}
    (h : runSteps (fun call => call.cell C i) calls v = .ok c) :
    c = none ↔ v = none ∨ ∃ call ∈ calls, call.NullAt i := by
  induction calls generalizing v with
  | nil =>
    obtain rfl := Outcome.ok.inj h
    simp
  | cons call calls ih =>
    obtain ⟨w, hw, hrest⟩ := (Outcome.bind_eq_ok_iff _ _ _).mp h
    rw [ih hrest, call_cell_eq_none_iff hw]
    simp [or_assoc]

end Rows

section Runs

variable {C : Crypto} {n : ℕ} {calls : List Call} {column : List (Option Text)}

/-- Nested calls return columns that fit. -/
theorem fitsColumn_of_runCalls (hpres : Ff1Preserves C Numerals)
    (hcalls : ∀ call ∈ calls, call.Fits n) (htokens : TokensFit calls n)
    (hcolumn : FitsColumn n column) {out : List (Option Text)}
    (h : runCalls C calls column = .ok out) : FitsColumn n out :=
  runSteps_invariant (fun call hcall _ _ hfits hout =>
    fitsColumn_of_run hpres (htokens call hcall) (hcalls call hcall) hfits hout) hcolumn h

/-- Nested calls are calls of the rows of one column after the other. -/
theorem runCalls_eq_callRows (hpres : Ff1Preserves C Numerals)
    (hcalls : ∀ call ∈ calls, call.Fits n) (htokens : TokensFit calls n)
    (hcolumn : FitsColumn n column) :
    runCalls C calls column = runSteps (fun call => callRows (call.cell C)) calls column := by
  have hsame : ∀ call ∈ calls, ∀ col, FitsColumn n col → call.run C col = callRows (call.cell C) col :=
    fun call hcall _ hfits => run_eq_callRows hpres (htokens call hcall) (hcalls call hcall) hfits
  refine runSteps_congr hsame (fun call hcall col out hfits hout => ?_) hcolumn
  rw [← hsame call hcall col hfits] at hout
  exact fitsColumn_of_run hpres (htokens call hcall) (hcalls call hcall) hfits hout

end Runs

/-- However many calls are nested on columns that fit, the run never panics; it returns exactly
when every row does, with each row's own result, null exactly where the value or an operand of
some call is null; and it fails with the first faulty row of the first call that has one. -/
theorem runCalls_rowwise (C : Crypto) (hans : Ff1Answers C Numerals) (hpres : Ff1Preserves C Numerals)
    (n : ℕ) (calls : List Call) (hcalls : ∀ call ∈ calls, call.Fits n) (htokens : TokensFit calls n)
    (column : List (Option Text)) (hcolumn : FitsColumn n column) :
    (runCalls C calls column).Answers ∧
      (∀ out, runCalls C calls column = .ok out ↔
        out.length = n ∧ ∀ (i : ℕ) (v : Option Text), column[i]? = some v →
          ∃ c, out[i]? = some c ∧ runSteps (fun call => call.cell C i) calls v = .ok c) ∧
      (∀ out, runCalls C calls column = .ok out → ∀ i < n,
        (out[i]? = some none ↔ column[i]? = some none ∨ ∃ call ∈ calls, call.NullAt i)) ∧
      ∀ re, runCalls C calls column = .err re ↔
        ∃ k call before i v, calls[k]? = some call ∧ runCalls C (calls.take k) column = .ok before ∧
          before[i]? = some v ∧ call.cell C i v = .err re ∧
          ∀ j < i, ∀ w, before[j]? = some w → ∃ c, call.cell C j w = .ok c := by
  have hsame : ∀ call ∈ calls, ∀ col, FitsColumn n col → call.run C col = callRows (call.cell C) col :=
    fun call hcall _ hfits => run_eq_callRows hpres (htokens call hcall) (hcalls call hcall) hfits
  have hok (out : List (Option Text)) : runCalls C calls column = .ok out ↔
      out.length = n ∧ ∀ (i : ℕ) (v : Option Text), column[i]? = some v →
        ∃ c, out[i]? = some c ∧ runSteps (fun call => call.cell C i) calls v = .ok c := by
    rw [runCalls_eq_callRows hpres hcalls htokens hcolumn, runSteps_callRows_eq_ok_iff, hcolumn.1]
  refine ⟨?_, hok, ?_, ?_⟩
  · refine runSteps_answers (fun call hcall col hfits => ?_) (fun call hcall col out hfits hout => ?_)
      hcolumn
    · rw [hsame call hcall col hfits]
      exact answers_mapM fun p _ => call_cell_answers hans hpres call p.2 p.1
    · exact fitsColumn_of_run hpres (htokens call hcall) (hcalls call hcall) hfits hout
  · intro out hout i hi
    rw [← hcolumn.1] at hi
    have hv : column[i]? = some column[i] := List.getElem?_eq_getElem hi
    obtain ⟨c, hc, hrun⟩ := ((hok out).mp hout).2 i _ hv
    rw [hc, hv, Option.some.injEq, Option.some.injEq]
    exact runCells_eq_none_iff hrun
  · intro re
    rw [runCalls, runSteps_eq_err_iff]
    have hfails (k : ℕ) (call : Call) (before : List (Option Text)) (hk : calls[k]? = some call)
        (hbefore : runCalls C (calls.take k) column = .ok before) :
        call.run C before = .err re ↔ ∃ i v, before[i]? = some v ∧ call.cell C i v = .err re ∧
          ∀ j < i, ∀ w, before[j]? = some w → ∃ c, call.cell C j w = .ok c := by
      have hfits := fitsColumn_of_runCalls hpres
        (fun call hcall => hcalls call (List.mem_of_mem_take hcall))
        (fun call hcall => htokens call (List.mem_of_mem_take hcall)) hcolumn hbefore
      rw [hsame call (List.mem_of_getElem? hk) before hfits, callRows_eq_err_iff]
    constructor
    · intro ⟨k, call, before, hk, hbefore, hre⟩
      obtain ⟨i, v, hrest⟩ := (hfails k call before hk hbefore).mp hre
      exact ⟨k, call, before, i, v, hk, hbefore, hrest⟩
    · intro ⟨k, call, before, i, v, hk, hbefore, hrest⟩
      exact ⟨k, call, before, hk, hbefore, (hfails k call before hk hbefore).mpr ⟨i, v, hrest⟩⟩

/-- A card number and an identifier under their profiles, then redacted; one mode is null. -/
def nestedCalls : List Call :=
  [⟨.fpe true, [[some "card".toList, some "digits".toList], [some "k".toList, some "k".toList]]⟩,
    ⟨.redact, [[some "last4".toList, none]]⟩]

/-- The last digits of the card's ciphertext are shown, and the null mode makes its row null. -/
theorem runCalls_rowwise_recorded :
    runCalls recordedCrypto nestedCalls [some "4012888888881881".toList, some "12-34".toList] =
        .ok [some "************6370".toList, none] ∧
      ∃ call ∈ nestedCalls, call.NullAt 1 := by
  have hrun : runCalls recordedCrypto nestedCalls
      [some "4012888888881881".toList, some "12-34".toList] =
        .ok [some "************6370".toList, none] := by
    decide +kernel
  have hfits : ∀ call ∈ nestedCalls, call.Fits 2 :=
    List.forall_mem_cons.mpr ⟨⟨⟨by decide, by decide⟩, by decide⟩,
      List.forall_mem_singleton.mpr ⟨⟨by decide, by decide⟩, by decide⟩⟩
  have htokens : TokensFit nestedCalls 2 := by
    rw [TokensFit]
    decide
  have hnull := ((runCalls_rowwise recordedCrypto (recordedCrypto_answers Numerals)
    (recordedCrypto_preserves Numerals) 2 nestedCalls hfits htokens _
    ⟨rfl, by decide⟩).2.2.1 _ hrun 1 (by decide)).mp rfl
  exact ⟨hrun, hnull.resolve_left (by decide)⟩

end VgiMask
