import VgiMask.Adapter.Batch

/-!
# Batches of any columns under any schema

Nothing makes the caller send text columns or announce the schema of the result. The loop
reads the operands of a row in order and stops at the first cell that is neither text nor
null, even when another operand of the row is null; in a column of any type a null is what
`Array::is_null` reports. A schema that does not fit the built array is refused after the loop.
This gives the outcome of every call: which batches panic, which rows fail, and what a returned
batch looks like.
-/

namespace VgiMask

open Common

/-- A schema announces the built array: one `Utf8` column, nullable if there is a null. -/
def SchemaFits (schema : List Field) (cells : List (Option Text)) : Prop :=
  ∃ field, schema = [field] ∧ (field.nullable = true ∨ none ∉ cells) ∧ field.dataType = .utf8

/-- What arrow objects to first when the built array is announced by another schema. -/
inductive SchemaRefuses (cells : List (Option Text)) : List Field → ArrowError → Prop where
  | columnCount {schema : List Field} (hcount : schema.length ≠ 1) :
      SchemaRefuses cells schema .columnCount
  | nulls {field : Field} (hnullable : field.nullable = false) (hnull : none ∈ cells) :
      SchemaRefuses cells [field] .nulls
  | columnType {field : Field} (hnulls : field.nullable = true ∨ none ∉ cells)
      (htype : field.dataType ≠ .utf8) : SchemaRefuses cells [field] .columnType

/-- The built array as a batch. -/
def builtBatch (out : StringBuilder) : RecordBatch where
  columns := [out.finish]
  rows := out.items.length
  length_eq := by
    intro c hc
    rw [List.mem_singleton.mp hc]
    rfl

/-- Some cell is null when a null is among the cells. -/
theorem hasNull_finish (out : StringBuilder) : out.finish.hasNull = true ↔ none ∈ out.items := by
  change out.items.any Option.isNone = true ↔ _
  simp

/-- A schema of one field is checked for nulls, then for the type. -/
theorem finishBatch_singleton {params : ProcessParams} {field : Field}
    (hschema : params.outputSchema = [field]) (out : StringBuilder) :
    finishBatch params out =
      if field.nullable = false ∧ none ∈ out.items then .err (.runtimeError .nulls)
      else if field.dataType ≠ .utf8 then .err (.runtimeError .columnType)
      else .ok (builtBatch out) := by
  have hlen : ∀ c ∈ [out.finish], c.length = out.finish.length := by
    intro c hc
    rw [List.mem_singleton.mp hc]
  have hnulls : (([out.finish].zip [field]).any fun p => !p.2.nullable && p.1.hasNull) = true ↔
      field.nullable = false ∧ none ∈ out.items := by
    rw [← hasNull_finish, List.zip_cons_cons, List.any_cons]
    change ((!field.nullable && out.finish.hasNull) || false) = true ↔ _
    rw [Bool.or_false, Bool.and_eq_true, Bool.not_eq_true']
  have htype : (([out.finish].zip [field]).any fun p => p.1.dataType ≠ p.2.dataType) = true ↔
      field.dataType ≠ .utf8 := by
    rw [List.zip_cons_cons, List.any_cons]
    change (decide (DataType.utf8 ≠ field.dataType) || false) = true ↔ _
    rw [Bool.or_false, decide_eq_true_eq, ne_comm]
  rw [finishBatch, hschema, RecordBatch.tryNew]
  simp only [List.length_singleton, ne_eq, not_true_eq_false, if_false, List.head?_cons, dif_pos hlen]
  split
  · rename_i h
    rw [if_pos (hnulls.mp h)]
    rfl
  · rename_i h
    rw [if_neg fun hn => h (hnulls.mpr hn)]
    split
    · rename_i h'
      rw [if_pos (htype.mp h')]
      rfl
    · rename_i h'
      rw [if_neg fun hn => h' (htype.mpr hn)]
      rfl

/-- Any other number of fields is refused. -/
theorem finishBatch_of_length {params : ProcessParams} (hschema : params.outputSchema.length ≠ 1)
    (out : StringBuilder) : finishBatch params out = .err (.runtimeError .columnCount) := by
  rw [finishBatch, RecordBatch.tryNew, List.length_singleton, if_pos hschema]
  rfl

/-- The message for a cell that is neither text nor null. -/
def notText (debug : Text) : Text := "expected a VARCHAR (string) argument, got ".toList ++ debug

/-- The type of a cell that is neither text nor null. -/
def Column.mistyped (c : Column) (row : ℕ) : Option Text :=
  match c with
  | .other debug nulls => if nulls[row]? = some false then some debug else none
  | _ => none

/-- The type of an operand that is neither text nor null. -/
def RecordBatch.mistyped (b : RecordBatch) (row i : ℕ) : Option Text :=
  b.columns[i]?.bind (·.mistyped row)

/-- Reading an operand: its type is reported, or its cell is returned. -/
def readOperand (type cell : Option Text) : Outcome RpcError (Option Text) :=
  match type with
  | some debug => .err (.valueError (notText debug))
  | none => .ok cell

/-- A cell in the column is read, or its type is reported. -/
theorem textStr_eq_mistyped {c : Column} {row : ℕ} (hrow : row < c.length) :
    textStr c row = readOperand (c.mistyped row) (c.cellAt row) := by
  cases c with
  | utf8 cells fits => exact textStr_eq rfl hrow
  | largeUtf8 cells => exact textStr_eq rfl hrow
  | other debug nulls =>
    have hget : nulls[row]? = some nulls[row] := List.getElem?_eq_getElem hrow
    rw [textStr, getChecked_of_getElem? hget, Column.mistyped, hget, Outcome.ok_bind]
    cases nulls[row] <;> rfl

/-- An operand cell is read, or its type is reported. -/
theorem textStr_eq_operand {batch : RecordBatch} {i j : ℕ} {c : Column}
    (hc : batch.columns[j]? = some c) (hi : i < batch.rows) :
    textStr c i = readOperand (batch.mistyped i j) (batch.operand i j) := by
  have hlen : c.length = batch.rows := batch.length_eq c (List.mem_of_getElem? hc)
  rw [textStr_eq_mistyped (hlen ▸ hi), RecordBatch.mistyped, RecordBatch.operand, hc]
  rfl

namespace Adapter

variable {C : Crypto} {a : Adapter} {params : ProcessParams} {batch : RecordBatch}

/-- The type reported for a row: that of its first operand that is neither text nor null. -/
def reported (a : Adapter) (batch : RecordBatch) (i : ℕ) : Option Text :=
  (List.range a.arity).findSome? (batch.mistyped i)

/-- The result cell of a row of any columns. -/
def checkedCell (C : Crypto) (a : Adapter) (batch : RecordBatch) (i : ℕ) :
    Outcome RpcError (Option Text) :=
  match a.reported batch i with
  | some debug => .err (.valueError (notText debug))
  | none => a.cell C batch i

/-- The number of text bytes of the result cells before the first row that has none. -/
def writtenSize (C : Crypto) (a : Adapter) (batch : RecordBatch) : ℕ :=
  ((returned (a.checkedCell C batch) (List.range batch.rows)).map cellSize).sum

/-- A row fails with the first operand that is neither text nor null, or, where there is none,
with the engine's error for its operands. -/
def RowFails (C : Crypto) (a : Adapter) (batch : RecordBatch) (i : ℕ) (re : RpcError) : Prop :=
  (∃ j < a.arity, ∃ debug, batch.mistyped i j = some debug ∧
      (∀ j' < j, batch.mistyped i j' = none) ∧ re = .valueError (notText debug)) ∨
    (∀ j < a.arity, batch.mistyped i j = none) ∧
      ∃ ops e, (∀ j, a.row batch i j = some (ops j)) ∧ a.answer C ops = .err e ∧ re = valueError e

/-- A row returns a cell: no operand is of another type, and the cell is a null where an operand
is null and the engine's answer where there is none. -/
def RowReturns (C : Crypto) (a : Adapter) (batch : RecordBatch) (i : ℕ) (cell : Option Text) : Prop :=
  (∀ j < a.arity, batch.mistyped i j = none) ∧
    ((∃ j, a.row batch i j = none) ∧ cell = none ∨
      ∃ ops s, (∀ j, a.row batch i j = some (ops j)) ∧ a.answer C ops = .ok s ∧ cell = some s)

/-- The rows of a batch return these cells, one for each row. -/
def ReturnsAll (C : Crypto) (a : Adapter) (batch : RecordBatch) (cells : List (Option Text)) : Prop :=
  cells.length = batch.rows ∧ ∀ i cell, cells[i]? = some cell → a.RowReturns C batch i cell

/-- A row fails, and all rows before it return cells. -/
def FirstFails (C : Crypto) (a : Adapter) (batch : RecordBatch) (re : RpcError) : Prop :=
  ∃ i < batch.rows, a.RowFails C batch i re ∧ ∀ j < i, ∃ cell, a.RowReturns C batch j cell

/-- Reading two operands and appending the cell of the row, or reporting a type. -/
theorem checkedStep_two (types cells : Fin 2 → Option Text)
    {answer : (Fin 2 → Text) → Outcome MaskError Text} {out : StringBuilder}
    {step : Option Text → Option Text → Outcome RpcError StringBuilder}
    (h : step (cells 0) (cells 1) = cellOf answer cells >>= out.push) :
    (readOperand (types 0) (cells 0) >>= fun x => readOperand (types 1) (cells 1) >>= step x) =
      (match [types 0, types 1].findSome? id with
        | some debug => .err (.valueError (notText debug))
        | none => cellOf answer cells) >>= out.push := by
  cases types 0 with
  | some debug => rfl
  | none =>
    cases types 1 with
    | some debug => rfl
    | none => exact h

/-- Reading three operands and appending the cell of the row, or reporting a type. -/
theorem checkedStep_three (types cells : Fin 3 → Option Text)
    {answer : (Fin 3 → Text) → Outcome MaskError Text} {out : StringBuilder}
    {step : Option Text → Option Text → Option Text → Outcome RpcError StringBuilder}
    (h : step (cells 0) (cells 1) (cells 2) = cellOf answer cells >>= out.push) :
    (readOperand (types 0) (cells 0) >>= fun x => readOperand (types 1) (cells 1) >>= fun y =>
      readOperand (types 2) (cells 2) >>= step x y) =
      (match [types 0, types 1, types 2].findSome? id with
        | some debug => .err (.valueError (notText debug))
        | none => cellOf answer cells) >>= out.push := by
  cases types 0 with
  | some debug => rfl
  | none =>
    cases types 1 with
    | some debug => rfl
    | none =>
      cases types 2 with
      | some debug => rfl
      | none => exact h

/-- An operand column that is there. -/
theorem exists_column (hcolumns : a.arity ≤ batch.columns.length) {j : ℕ} (hj : j < a.arity) :
    ∃ c, batch.columns[j]? = some c :=
  ⟨_, List.getElem?_eq_getElem (Nat.lt_of_lt_of_le hj hcolumns)⟩

/-- Each adapter's loop fills the builder with the checked cells of the rows. -/
theorem process_eq_checkedLoop (hcolumns : a.arity ≤ batch.columns.length) :
    a.process C params batch =
      fillLoop (a.checkedCell C batch) (List.range batch.rows) Buffer.empty >>=
        finishBatch params := by
  cases a with
  | fpe forward =>
    obtain ⟨value, hvalue⟩ := exists_column hcolumns (by decide : 0 < 3)
    obtain ⟨fmt, hfmt⟩ := exists_column hcolumns (by decide : 1 < 3)
    obtain ⟨key, hkey⟩ := exists_column hcolumns (by decide : 2 < 3)
    rw [process, runFpe, RecordBatch.column, RecordBatch.column, RecordBatch.column,
      getChecked_of_getElem? hvalue, getChecked_of_getElem? hfmt, getChecked_of_getElem? hkey]
    change (_ >>= finishBatch params) = _
    congr 1
    apply foldlM_congr_mem
    intro i hi out
    have hi := List.mem_range.mp hi
    rw [textStr_eq_operand hvalue hi, textStr_eq_operand hfmt hi, textStr_eq_operand hkey hi]
    refine checkedStep_three (fun j => batch.mistyped i j) (row (.fpe forward) batch i) ?_
    refine step_three (row (.fpe forward) batch i) (answer C (.fpe forward)) (fun v fmtName k => do
      let format ← (Format.parse fmtName).mapErr valueError
      let s ← (VgiMask.fpe C forward v format k).mapErr valueError
      out.appendValue s) out fun ops => ?_
    dsimp only [answer]
    cases Format.parse (ops 1) <;> rfl
  | token =>
    obtain ⟨value, hvalue⟩ := exists_column hcolumns (by decide : 0 < 2)
    obtain ⟨key, hkey⟩ := exists_column hcolumns (by decide : 1 < 2)
    rw [process, maskTokenProcess, RecordBatch.column, RecordBatch.column,
      getChecked_of_getElem? hvalue, getChecked_of_getElem? hkey]
    change (_ >>= finishBatch params) = _
    congr 1
    apply foldlM_congr_mem
    intro i hi out
    have hi := List.mem_range.mp hi
    rw [textStr_eq_operand hvalue hi, textStr_eq_operand hkey hi]
    refine checkedStep_two (fun j => batch.mistyped i j) (row .token batch i) ?_
    exact step_two (row .token batch i) (answer C .token)
      (fun v k => (VgiMask.token C v k).mapErr valueError >>= out.appendValue) out fun ops => rfl
  | redact =>
    obtain ⟨value, hvalue⟩ := exists_column hcolumns (by decide : 0 < 2)
    obtain ⟨mode, hmode⟩ := exists_column hcolumns (by decide : 1 < 2)
    rw [process, maskRedactProcess, RecordBatch.column, RecordBatch.column,
      getChecked_of_getElem? hvalue, getChecked_of_getElem? hmode]
    change (_ >>= finishBatch params) = _
    congr 1
    apply foldlM_congr_mem
    intro i hi out
    have hi := List.mem_range.mp hi
    rw [textStr_eq_operand hvalue hi, textStr_eq_operand hmode hi]
    refine checkedStep_two (fun j => batch.mistyped i j) (row .redact batch i) ?_
    refine step_two (row .redact batch i) (answer C .redact) (fun v m => do
      let mode ← (RedactMode.parse m).mapErr valueError
      out.appendValue (VgiMask.redact v mode)) out fun ops => ?_
    dsimp only [answer]
    cases RedactMode.parse (ops 1) <;> rfl

/-- A column is there or asking for it panics. -/
theorem column_cases (batch : RecordBatch) (j : ℕ) :
    (∃ c, batch.column j = .ok c) ∨ batch.column j = .panic := by
  rw [RecordBatch.column, getChecked]
  cases batch.columns[j]? with
  | some c => exact .inl ⟨c, rfl⟩
  | none => exact .inr rfl

/-- Without all its operand columns, every adapter panics, whatever the rows. -/
theorem process_too_few (hcolumns : batch.columns.length < a.arity) :
    a.process C params batch = .panic := by
  have hlast : batch.column (a.arity - 1) = .panic := by
    have hle : batch.columns.length ≤ a.arity - 1 := by omega
    rw [RecordBatch.column, getChecked, List.getElem?_eq_none hle]
  cases a with
  | fpe forward =>
    change batch.column 2 = .panic at hlast
    rw [process, runFpe, hlast]
    rcases column_cases batch 0 with ⟨value, hvalue⟩ | hvalue
    · rcases column_cases batch 1 with ⟨fmt, hfmt⟩ | hfmt
      · rw [hvalue, hfmt]
        rfl
      · rw [hvalue, hfmt]
        rfl
    · rw [hvalue]
      rfl
  | token =>
    change batch.column 1 = .panic at hlast
    rw [process, maskTokenProcess, hlast]
    rcases column_cases batch 0 with ⟨value, hvalue⟩ | hvalue
    · rw [hvalue]
      rfl
    · rw [hvalue]
      rfl
  | redact =>
    change batch.column 1 = .panic at hlast
    rw [process, maskRedactProcess, hlast]
    rcases column_cases batch 0 with ⟨value, hvalue⟩ | hvalue
    · rw [hvalue]
      rfl
    · rw [hvalue]
      rfl

/-- A type is reported for the first operand that is neither text nor null. -/
theorem reported_eq_some_iff {i : ℕ} {debug : Text} :
    a.reported batch i = some debug ↔
      ∃ j < a.arity, batch.mistyped i j = some debug ∧ ∀ j' < j, batch.mistyped i j' = none :=
  findSome?_range_eq_some_iff (batch.mistyped i) a.arity debug

/-- No type is reported when every operand is text or null. -/
theorem reported_eq_none_iff {i : ℕ} :
    a.reported batch i = none ↔ ∀ j < a.arity, batch.mistyped i j = none := by
  rw [reported, List.findSome?_eq_none_iff]
  simp only [List.mem_range]

/-- The checked cell of a row is an error exactly when the row fails with it. -/
theorem checkedCell_eq_err_iff {i : ℕ} {re : RpcError} :
    a.checkedCell C batch i = .err re ↔ a.RowFails C batch i re := by
  unfold checkedCell RowFails
  cases hreported : a.reported batch i with
  | some debug =>
    obtain ⟨j, hj, hdebug, hfirst⟩ := reported_eq_some_iff.mp hreported
    constructor
    · intro h
      exact .inl ⟨j, hj, debug, hdebug, hfirst, (Outcome.err.inj h).symm⟩
    · rintro (⟨j', hj', debug', hdebug', hfirst', rfl⟩ | ⟨hnone, -⟩)
      · have hsame := reported_eq_some_iff.mpr ⟨j', hj', hdebug', hfirst'⟩
        rw [hreported, Option.some.injEq] at hsame
        rw [hsame]
      · rw [hnone j hj] at hdebug
        cases hdebug
  | none =>
    have htext := reported_eq_none_iff.mp hreported
    constructor
    · intro h
      refine .inr ⟨htext, ?_⟩
      cases hrow : allSome (a.row batch i) with
      | none =>
        rw [cell_of_none ((allSome_eq_none_iff _).mp hrow)] at h
        cases h
      | some ops =>
        have hops := (allSome_eq_some_iff _ _).mp hrow
        rw [cell_of_some hops] at h
        cases hanswer : a.answer C ops with
        | err e =>
          rw [hanswer] at h
          exact ⟨ops, e, hops, hanswer, (Outcome.err.inj h).symm⟩
        | _ =>
          rw [hanswer] at h
          cases h
    · rintro (⟨j, hj, debug, hdebug, -⟩ | ⟨-, ops, e, hops, hanswer, rfl⟩)
      · rw [htext j hj] at hdebug
        cases hdebug
      · rw [cell_of_some hops, hanswer]
        rfl

/-- Where FF1 answers, every row has a checked cell or an error. -/
theorem checkedCell_answers (hans : Ff1Answers C Numerals) (hpres : Ff1Preserves C Numerals)
    (a : Adapter) (batch : RecordBatch) (i : ℕ) : (a.checkedCell C batch i).Answers := by
  unfold checkedCell
  cases a.reported batch i with
  | some debug => exact ⟨nofun, nofun⟩
  | none =>
    cases hrow : allSome (a.row batch i) with
    | none =>
      rw [cell_of_none ((allSome_eq_none_iff _).mp hrow)]
      exact ⟨nofun, nofun⟩
    | some ops =>
      rw [cell_of_some ((allSome_eq_some_iff _ _).mp hrow)]
      exact ((answer_answers hans hpres ops).mapErr valueError).map some

/-- The checked cell of a row is the cell that it returns. -/
theorem checkedCell_eq_ok_iff {i : ℕ} {cell : Option Text} :
    a.checkedCell C batch i = .ok cell ↔ a.RowReturns C batch i cell := by
  unfold checkedCell RowReturns
  cases hreported : a.reported batch i with
  | some debug =>
    obtain ⟨j, hj, hdebug, -⟩ := reported_eq_some_iff.mp hreported
    refine iff_of_false nofun fun h => ?_
    rw [h.1 j hj] at hdebug
    cases hdebug
  | none =>
    have htext := reported_eq_none_iff.mp hreported
    change a.cell C batch i = .ok cell ↔ _
    rw [and_iff_right htext]
    cases hrow : allSome (a.row batch i) with
    | none =>
      have hnull := (allSome_eq_none_iff _).mp hrow
      rw [cell_of_none hnull, Outcome.ok.injEq]
      constructor
      · intro h
        exact .inl ⟨hnull, h.symm⟩
      · rintro (⟨-, hcell⟩ | ⟨ops, s, hops, -, -⟩)
        · exact hcell.symm
        · obtain ⟨j, hj⟩ := hnull
          rw [hops j] at hj
          cases hj
    | some ops =>
      have hops := (allSome_eq_some_iff _ _).mp hrow
      rw [cell_of_some hops, Outcome.map_eq_ok_iff]
      constructor
      · intro ⟨s, hs, hcell⟩
        exact .inr ⟨ops, s, hops, (Outcome.mapErr_eq_ok_iff _ _ _).mp hs, hcell.symm⟩
      · rintro (⟨⟨j, hj⟩, -⟩ | ⟨ops', s, hops', hs, hcell⟩)
        · rw [hops j] at hj
          cases hj
        · have hsame : ops' = ops := funext fun j => Option.some.inj ((hops' j).symm.trans (hops j))
          rw [hsame] at hs
          exact ⟨s, (Outcome.mapErr_eq_ok_iff _ _ _).mpr hs, hcell.symm⟩

/-- All rows return their cells exactly when the calls of the rows return them in order. -/
theorem mapM_checkedCell_eq_ok_iff {cells : List (Option Text)} :
    (List.range batch.rows).mapM (a.checkedCell C batch) = .ok cells ↔ a.ReturnsAll C batch cells := by
  rw [mapM_eq_ok_iff, List.length_range, ReturnsAll]
  apply and_congr_right
  intro hlen
  constructor
  · intro hrows i cell hcell
    have hi : i < batch.rows := hlen ▸ (List.getElem?_eq_some_iff.mp hcell).1
    obtain ⟨cell', hcell', hrow⟩ := hrows i i (List.getElem?_range hi)
    rw [hcell, Option.some.injEq] at hcell'
    exact checkedCell_eq_ok_iff.mp (hcell' ▸ hrow)
  · intro hrows i x hx
    obtain ⟨hi, rfl⟩ := List.getElem?_eq_some_iff.mp hx
    rw [List.length_range, ← hlen] at hi
    rw [List.getElem_range]
    have hcell := List.getElem?_eq_getElem hi
    exact ⟨cells[i], hcell, checkedCell_eq_ok_iff.mpr (hrows i _ hcell)⟩

/-- The calls of the rows fail in order exactly with the error of the first row that fails. -/
theorem mapM_checkedCell_eq_err_iff {re : RpcError} :
    (List.range batch.rows).mapM (a.checkedCell C batch) = .err re ↔ a.FirstFails C batch re := by
  rw [mapM_range_eq_err_iff]
  apply exists_congr
  intro i
  rw [checkedCell_eq_err_iff]
  apply and_congr_right
  intro _
  apply and_congr_right
  intro _
  apply forall₂_congr
  intro j _
  apply exists_congr
  intro cell
  exact checkedCell_eq_ok_iff

end Adapter

/-- The built array becomes a batch exactly under a schema that announces it. -/
theorem finishBatch_eq_ok_iff {params : ProcessParams} {out : StringBuilder} {b : RecordBatch} :
    finishBatch params out = .ok b ↔
      SchemaFits params.outputSchema out.items ∧ b = builtBatch out := by
  by_cases hlen : params.outputSchema.length = 1
  · obtain ⟨field, hschema⟩ := List.length_eq_one_iff.mp hlen
    have hfits : SchemaFits params.outputSchema out.items ↔
        ¬ (field.nullable = false ∧ none ∈ out.items) ∧ ¬ field.dataType ≠ .utf8 := by
      rw [SchemaFits, hschema]
      simp [or_iff_not_imp_left]
    rw [finishBatch_singleton hschema, hfits]
    split
    · rename_i h
      exact iff_of_false nofun fun h' => h'.1.1 h
    · rename_i h
      split
      · rename_i h'
        exact iff_of_false nofun fun h'' => h''.1.2 h'
      · rename_i h'
        rw [Outcome.ok.injEq, and_iff_right ⟨h, h'⟩, eq_comm]
  · rw [finishBatch_of_length hlen]
    refine iff_of_false nofun fun ⟨⟨field, hschema, _⟩, _⟩ => hlen ?_
    rw [hschema]
    rfl

/-- The built array is refused exactly with what arrow objects to. -/
theorem finishBatch_eq_err_iff {params : ProcessParams} {out : StringBuilder} {re : RpcError} :
    finishBatch params out = .err re ↔
      ∃ cause, SchemaRefuses out.items params.outputSchema cause ∧ re = .runtimeError cause := by
  by_cases hlen : params.outputSchema.length = 1
  · obtain ⟨field, hschema⟩ := List.length_eq_one_iff.mp hlen
    rw [finishBatch_singleton hschema, hschema]
    constructor
    · intro h
      split at h
      · rename_i hnulls
        exact ⟨.nulls, .nulls hnulls.1 hnulls.2, (Outcome.err.inj h).symm⟩
      · rename_i hnulls
        split at h
        · rename_i htype
          have hnulls' : field.nullable = true ∨ none ∉ out.items := by
            simpa [or_iff_not_imp_left] using hnulls
          exact ⟨.columnType, .columnType hnulls' htype, (Outcome.err.inj h).symm⟩
        · cases h
    · rintro ⟨cause, hrefuses, rfl⟩
      cases hrefuses with
      | columnCount hcount => exact absurd rfl hcount
      | nulls hnullable hnull => rw [if_pos ⟨hnullable, hnull⟩]
      | columnType hnulls htype =>
        have hnot : ¬ (field.nullable = false ∧ none ∈ out.items) := by
          simpa [or_iff_not_imp_left] using hnulls
        rw [if_neg hnot, if_pos htype]
  · rw [finishBatch_of_length hlen]
    constructor
    · intro h
      exact ⟨.columnCount, .columnCount hlen, (Outcome.err.inj h).symm⟩
    · rintro ⟨cause, hrefuses, rfl⟩
      generalize params.outputSchema = schema at hlen hrefuses
      cases hrefuses with
      | columnCount hcount => rfl
      | nulls hnullable hnull => exact absurd rfl hlen
      | columnType hnulls htype => exact absurd rfl hlen

/-- The built array becomes a batch or is refused. -/
theorem finishBatch_answers (params : ProcessParams) (out : StringBuilder) :
    (finishBatch params out).Answers := by
  by_cases hlen : params.outputSchema.length = 1
  · obtain ⟨field, hschema⟩ := List.length_eq_one_iff.mp hlen
    rw [finishBatch_singleton hschema]
    split
    · exact ⟨nofun, nofun⟩
    · split
      · exact ⟨nofun, nofun⟩
      · exact ⟨nofun, nofun⟩
  · rw [finishBatch_of_length hlen]
    exact ⟨nofun, nofun⟩

namespace Adapter

variable {C : Crypto} {a : Adapter} {params : ProcessParams} {batch : RecordBatch}

/-- While the builder fits them, the loop calls the rows in order; else it panics. -/
theorem items_checkedLoop (C : Crypto) (a : Adapter) (batch : RecordBatch) :
    Buffer.items <$> fillLoop (a.checkedCell C batch) (List.range batch.rows)
        (Buffer.empty : StringBuilder) =
      if a.writtenSize C batch ≤ i32Max then (List.range batch.rows).mapM (a.checkedCell C batch)
      else .panic := by
  rw [fillLoop_eq]
  change (if a.writtenSize C batch ≤ i32Max then _ else _) = _
  congr 1
  exact id_map _

/-- The cells of a batch whose rows all return are what is written. -/
theorem writtenSize_of_returnsAll {cells : List (Option Text)} (h : a.ReturnsAll C batch cells) :
    a.writtenSize C batch = (cells.map cellSize).sum := by
  rw [writtenSize, returned_of_mapM_eq_ok (mapM_checkedCell_eq_ok_iff.mpr h)]

/-- The loop builds an array exactly of cells that the rows return. -/
theorem checkedLoop_eq_ok_iff {out : StringBuilder} :
    fillLoop (a.checkedCell C batch) (List.range batch.rows) Buffer.empty = .ok out ↔
      a.ReturnsAll C batch out.items := by
  have hitems := items_checkedLoop C a batch
  rw [← mapM_checkedCell_eq_ok_iff]
  constructor
  · intro h
    rw [h, Outcome.map_ok] at hitems
    split at hitems
    · exact hitems.symm
    · cases hitems
  · intro h
    have hsize := writtenSize_of_returnsAll (mapM_checkedCell_eq_ok_iff.mp h)
    rw [if_pos (hsize ▸ out.fits), h] at hitems
    obtain ⟨out', hout', hsame⟩ := (Outcome.map_eq_ok_iff _ _ _).mp hitems
    rw [hout']
    cases out
    cases out'
    cases hsame
    rfl

/-- The loop fails exactly with the first row that fails, if what is written before fits. -/
theorem checkedLoop_eq_err_iff {re : RpcError} :
    fillLoop (a.checkedCell C batch) (List.range batch.rows) (Buffer.empty : StringBuilder) =
        .err re ↔
      a.writtenSize C batch ≤ i32Max ∧ a.FirstFails C batch re := by
  rw [← Outcome.map_eq_err_iff Buffer.items, items_checkedLoop C a batch, ← mapM_checkedCell_eq_err_iff]
  split
  · rename_i hfits
    rw [and_iff_right hfits]
  · rename_i hover
    exact iff_of_false nofun fun h => hover h.1

/-- Where FF1 answers, the loop panics exactly when what is written does not fit, and ends. -/
theorem checkedLoop_panics_iff (hans : Ff1Answers C Numerals) (hpres : Ff1Preserves C Numerals)
    (a : Adapter) (batch : RecordBatch) :
    (fillLoop (a.checkedCell C batch) (List.range batch.rows) (Buffer.empty : StringBuilder) =
        .panic ↔ i32Max < a.writtenSize C batch) ∧
      fillLoop (a.checkedCell C batch) (List.range batch.rows) (Buffer.empty : StringBuilder) ≠
        .diverge := by
  have hitems := items_checkedLoop C a batch
  have hcalls : ((List.range batch.rows).mapM (a.checkedCell C batch)).Answers :=
    answers_mapM fun i _ => checkedCell_answers hans hpres a batch i
  constructor
  · rw [← Outcome.map_eq_panic_iff Buffer.items, hitems]
    split
    · rename_i hfits
      exact iff_of_false hcalls.1 (Nat.not_lt.mpr hfits)
    · rename_i hover
      exact iff_of_true rfl (Nat.not_le.mp hover)
  · intro hdiverge
    rw [hdiverge, Outcome.map_diverge] at hitems
    split at hitems
    · exact hcalls.2 hitems.symm
    · cases hitems

/-- A call returns exactly when all rows return and the schema announces their cells. -/
theorem process_returns_iff (hcolumns : a.arity ≤ batch.columns.length) {out : RecordBatch} :
    a.process C params batch = .ok out ↔
      ∃ cells fits, a.ReturnsAll C batch cells ∧ SchemaFits params.outputSchema cells ∧
        out.columns = [.utf8 cells fits] ∧ out.rows = batch.rows := by
  rw [process_eq_checkedLoop hcolumns, Outcome.bind_eq_ok_iff]
  constructor
  · intro ⟨builder, hbuilder, hout⟩
    have hall := checkedLoop_eq_ok_iff.mp hbuilder
    obtain ⟨hschema, rfl⟩ := finishBatch_eq_ok_iff.mp hout
    exact ⟨builder.items, builder.fits, hall, hschema, rfl, hall.1⟩
  · intro ⟨cells, fits, hall, hschema, hcolumns, hrows⟩
    have hbuilt : out = builtBatch ⟨cells, fits⟩ := by
      obtain ⟨columns, rows, hlen⟩ := out
      cases hcolumns
      cases hrows.trans hall.1.symm
      rfl
    exact ⟨⟨cells, fits⟩, checkedLoop_eq_ok_iff.mpr hall, finishBatch_eq_ok_iff.mpr ⟨hschema, hbuilt⟩⟩

/-- A call fails with the first row that fails, or else with what arrow objects to. -/
theorem process_fails_iff (hcolumns : a.arity ≤ batch.columns.length) {re : RpcError} :
    a.process C params batch = .err re ↔ a.writtenSize C batch ≤ i32Max ∧
      (a.FirstFails C batch re ∨ ∃ cells, a.ReturnsAll C batch cells ∧
        ∃ cause, SchemaRefuses cells params.outputSchema cause ∧ re = .runtimeError cause) := by
  rw [process_eq_checkedLoop hcolumns, Outcome.bind_eq_err_iff, checkedLoop_eq_err_iff]
  constructor
  · rintro (⟨hfits, hfirst⟩ | ⟨builder, hbuilder, herr⟩)
    · exact ⟨hfits, .inl hfirst⟩
    · have hall := checkedLoop_eq_ok_iff.mp hbuilder
      obtain ⟨cause, hcause, hre⟩ := finishBatch_eq_err_iff.mp herr
      refine ⟨?_, .inr ⟨builder.items, hall, cause, hcause, hre⟩⟩
      rw [writtenSize_of_returnsAll hall]
      exact builder.fits
  · rintro ⟨hfits, hfirst | ⟨cells, hall, cause, hcause, hre⟩⟩
    · exact .inl ⟨hfits, hfirst⟩
    · rw [writtenSize_of_returnsAll hall] at hfits
      exact .inr ⟨⟨cells, hfits⟩, checkedLoop_eq_ok_iff.mpr hall,
        finishBatch_eq_err_iff.mpr ⟨cause, hcause, hre⟩⟩

/-- Where FF1 answers, a call panics exactly when what is written does not fit, and ends. -/
theorem process_panics_iff (hans : Ff1Answers C Numerals) (hpres : Ff1Preserves C Numerals)
    (hcolumns : a.arity ≤ batch.columns.length) :
    (a.process C params batch = .panic ↔ i32Max < a.writtenSize C batch) ∧
      a.process C params batch ≠ .diverge := by
  obtain ⟨hpanic, hends⟩ := checkedLoop_panics_iff hans hpres a batch
  rw [process_eq_checkedLoop hcolumns]
  constructor
  · rw [Outcome.bind_eq_panic_iff, hpanic]
    constructor
    · rintro (hover | ⟨builder, -, hfinish⟩)
      · exact hover
      · exact absurd hfinish (finishBatch_answers params builder).1
    · exact .inl
  · intro hdiverge
    cases hloop : fillLoop (a.checkedCell C batch) (List.range batch.rows)
        (Buffer.empty : StringBuilder) with
    | ok builder =>
      rw [hloop] at hdiverge
      exact (finishBatch_answers params builder).2 hdiverge
    | diverge => exact hends hloop
    | _ =>
      rw [hloop] at hdiverge
      cases hdiverge

end Adapter

/-- The outcome of every call of every adapter, whatever the columns of the batch and the
announced schema. Too few columns panic. Otherwise the call returns exactly when all rows
return, their cells fit the builder and the schema announces them; it fails with the first row
that fails, or else with what arrow objects to in the schema; and it panics exactly when what
is written does not fit. -/
theorem process_outcome (C : Crypto) (hans : Ff1Answers C Numerals) (hpres : Ff1Preserves C Numerals)
    (a : Adapter) (params : ProcessParams) (batch : RecordBatch) :
    (batch.columns.length < a.arity → a.process C params batch = .panic) ∧
      (a.arity ≤ batch.columns.length →
        (∀ out, a.process C params batch = .ok out ↔
            ∃ cells fits, a.ReturnsAll C batch cells ∧ SchemaFits params.outputSchema cells ∧
              out.columns = [.utf8 cells fits] ∧ out.rows = batch.rows) ∧
          (∀ re, a.process C params batch = .err re ↔
            a.writtenSize C batch ≤ i32Max ∧
              (a.FirstFails C batch re ∨ ∃ cells, a.ReturnsAll C batch cells ∧
                ∃ cause, SchemaRefuses cells params.outputSchema cause ∧ re = .runtimeError cause)) ∧
          (a.process C params batch = .panic ↔ i32Max < a.writtenSize C batch) ∧
          a.process C params batch ≠ .diverge) := by
  refine ⟨Adapter.process_too_few, fun hcolumns => ⟨?_, ?_, Adapter.process_panics_iff hans hpres hcolumns⟩⟩
  · intro out
    exact Adapter.process_returns_iff hcolumns
  · intro re
    exact Adapter.process_fails_iff hcolumns

/-- Two rows whose key column holds numbers, the first of them null. -/
def numberKeyBatch : RecordBatch where
  columns := [
    .utf8 [some "alice@x.com".toList, none] (by decide),
    .largeUtf8 [some "bogus".toList, some "email".toList],
    .other "Int64".toList [true, false]]
  rows := 2
  length_eq := by decide

/-- A null key of another type hides an unknown profile, but a null value does not hide a key
of another type; and a schema that is not the announced one is refused. -/
theorem process_outcome_recorded :
    (Adapter.fpe true).process recordedCrypto ⟨onBind⟩ numberKeyBatch =
        .err (.valueError "expected a VARCHAR (string) argument, got Int64".toList) ∧
      (Adapter.fpe true).process recordedCrypto ⟨[⟨.utf8, false⟩]⟩ cardBatch =
        .err (.runtimeError .nulls) := by
  have hrow : ∀ j < 1, ∃ cell, (Adapter.fpe true).RowReturns recordedCrypto numberKeyBatch j cell := by
    intro j hj
    obtain rfl := Nat.lt_one_iff.mp hj
    exact ⟨none, Adapter.checkedCell_eq_ok_iff.mp (by decide)⟩
  have hfails : (Adapter.fpe true).RowFails recordedCrypto numberKeyBatch 1
      (.valueError (notText "Int64".toList)) :=
    .inl ⟨2, by decide, "Int64".toList, by decide, by decide, rfl⟩
  have hcards : (Adapter.fpe true).ReturnsAll recordedCrypto cardBatch
      [some "5476791465396370".toList, none, some "5476-7914-6539-6370".toList] :=
    Adapter.mapM_checkedCell_eq_ok_iff.mp (by decide +kernel)
  have houtcome (params : ProcessParams) (batch : RecordBatch) :=
    process_outcome recordedCrypto (recordedCrypto_answers Numerals)
      (recordedCrypto_preserves Numerals) (.fpe true) params batch
  have hnumbers := ((houtcome ⟨onBind⟩ numberKeyBatch).2 (by decide)).2.1
  have hschema := ((houtcome ⟨[⟨.utf8, false⟩]⟩ cardBatch).2 (by decide)).2.1
  exact ⟨(hnumbers _).mpr ⟨by decide, .inl ⟨1, by decide, hfails, hrow⟩⟩,
    (hschema _).mpr ⟨by decide +kernel, .inr ⟨_, hcards, .nulls, .nulls rfl (by decide), rfl⟩⟩⟩

end VgiMask
