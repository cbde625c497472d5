import VgiMask.Adapter.AnyColumns
import VgiMask.Adapter.OutputSize

/-!
# Columns of text in and out

The in-process harness builds a batch of `Utf8` columns, binds the function, runs it and
collects the result column. It panics on columns that make no batch; on all others it calls
the rows in order, and only the token function can write more than the builder holds.
-/

namespace VgiMask

open Common

/-- A `Utf8` array of optional texts. -/
def stringArray (col : List (Option Text)) : Outcome RpcError Column := do
  let out ← col.foldlM (fun (out : StringBuilder) cell =>
    match cell with
    | some s => out.appendValue s
    | none => out.appendNull) Buffer.empty
  pure out.finish

/-- A batch of `Utf8` columns; columns that make no batch panic. -/
def textBatch (cols : List (List (Option Text))) : Outcome RpcError RecordBatch := do
  let arrays ← cols.mapM stringArray
  match RecordBatch.tryNew (arrays.map fun _ => ⟨.utf8, true⟩) arrays with
  | .ok batch => .ok batch
  | _ => .panic

/-- The cells of a `Utf8` array; any other array panics. -/
def asString (c : Column) : Outcome RpcError (List (Option Text)) :=
  match c with
  | .utf8 cells _ => .ok cells
  | _ => .panic

/-- Run a scalar function over columns of text and collect the result column. -/
def runScalar (C : Crypto) (a : Adapter) (cols : List (List (Option Text))) :
    Outcome RpcError (List (Option Text)) := do
  let batch ← textBatch cols
  let out ← a.process C ⟨onBind⟩ batch
  let s ← out.column 0
  let cells ← asString s
  pure ((List.range cells.length).map fun i => cells[i]?.join)

/-- The number of text bytes of a column. -/
def columnSize (col : List (Option Text)) : ℕ := (col.map cellSize).sum

/-- Columns of one length that 32-bit offsets can address. -/
structure Tabular (cols : List (List (Option Text))) (n : ℕ) : Prop where
  length_eq : ∀ col ∈ cols, col.length = n
  fits : ∀ col ∈ cols, columnSize col ≤ i32Max

/-- The operand cells of a row of columns of text. -/
def cellsAt (cols : List (List (Option Text))) (i j : ℕ) : Option Text :=
  cols[j]?.bind fun col => col[i]?.join

/-- A batch that holds columns of text. -/
structure Holds (batch : RecordBatch) (cols : List (List (Option Text))) (n : ℕ) : Prop where
  rows_eq : batch.rows = n
  text : batch.TextColumns cols.length
  operand_eq : ∀ i j, batch.operand i j = cellsAt cols i j
  value_column : ∀ col, cols[0]? = some col → ∃ fits, batch.columns[0]? = some (.utf8 col fits)

/-- A column of text becomes its array when it fits 32-bit offsets, and else panics. -/
theorem stringArray_eq (col : List (Option Text)) :
    stringArray col = if h : columnSize col ≤ i32Max then .ok (.utf8 col h) else .panic := by
  have hloop : stringArray col =
      StringBuilder.finish <$> fillLoop .ok col (Buffer.empty : StringBuilder) := by
    rw [stringArray, fillLoop]
    congr 1
    apply foldlM_congr_mem
    intro cell _ out
    cases cell <;> rfl
  have hitems := fillLoop_eq (Outcome.ok : Option Text → Outcome RpcError _) col
    (Buffer.empty : StringBuilder)
  have hcalls : col.mapM (Outcome.ok : Option Text → Outcome RpcError _) = .ok col := by
    have hmap := mapM_map_eq_ok (Outcome.ok : Option Text → Outcome RpcError _) id id col
      fun _ _ => rfl
    rwa [List.map_id] at hmap
  rw [returned_of_mapM_eq_ok hcalls, hcalls] at hitems
  change _ = (if columnSize col ≤ i32Max then Outcome.ok col else .panic) at hitems
  rw [hloop]
  split
  · rename_i hfits
    rw [if_pos hfits] at hitems
    obtain ⟨out, hout, rfl⟩ := (Outcome.map_eq_ok_iff _ _ _).mp hitems
    rw [hout]
    rfl
  · rename_i hover
    rw [if_neg hover, Outcome.map_eq_panic_iff] at hitems
    rw [hitems]
    rfl

/-- Arrays are the columns of text they were made of. -/
theorem mapM_stringArray {cols : List (List (Option Text))} {n : ℕ} (h : Tabular cols n) :
    ∃ arrays, cols.mapM stringArray = .ok arrays ∧ arrays.length = cols.length ∧
      (∀ c ∈ arrays, c.length = n ∧ c.dataType = .utf8) ∧
      ∀ (j : ℕ) (col : List (Option Text)), cols[j]? = some col →
        ∃ fits, arrays[j]? = some (.utf8 col fits) := by
  have hcall : ∀ col ∈ cols, ∃ c, stringArray col = .ok c := by
    intro col hcol
    exact ⟨_, by rw [stringArray_eq, dif_pos (h.fits col hcol)]⟩
  obtain ⟨arrays, harrays⟩ := (exists_mapM_eq_ok_iff _ _).mpr hcall
  obtain ⟨hlen, hplace⟩ := getElem?_of_mapM_eq_ok harrays
  have hcolumn : ∀ (j : ℕ) (col : List (Option Text)), cols[j]? = some col →
      ∃ fits, arrays[j]? = some (.utf8 col fits) := by
    intro j col hcol
    obtain ⟨c, hc, hstring⟩ := hplace j col hcol
    have hfits := h.fits col (List.mem_of_getElem? hcol)
    rw [stringArray_eq, dif_pos hfits] at hstring
    exact ⟨hfits, by rw [hc, ← Outcome.ok.inj hstring]⟩
  refine ⟨arrays, harrays, hlen, fun c hc => ?_, hcolumn⟩
  obtain ⟨j, hj, hget⟩ := List.getElem_of_mem hc
  have hcol : cols[j]? = some cols[j] := List.getElem?_eq_getElem (hlen ▸ hj)
  obtain ⟨fits, hfits⟩ := hcolumn j _ hcol
  rw [List.getElem?_eq_getElem hj, hget, Option.some.injEq] at hfits
  rw [hfits]
  exact ⟨h.length_eq _ (List.mem_of_getElem? hcol), rfl⟩

/-- Arrays of one length make a batch under a schema of nullable `Utf8` fields. -/
theorem tryNew_utf8 {arrays : List Column} {n : ℕ} (hne : arrays ≠ [])
    (harrays : ∀ c ∈ arrays, c.length = n ∧ c.dataType = .utf8) :
    ∃ b : RecordBatch, RecordBatch.tryNew (arrays.map fun _ => ⟨.utf8, true⟩) arrays = .ok b ∧
      b.columns = arrays ∧ b.rows = n := by
  obtain ⟨first, rest, rfl⟩ := List.exists_cons_of_ne_nil hne
  have hfirst : first.length = n := (harrays first List.mem_cons_self).1
  have hlen : ∀ c ∈ first :: rest, c.length = first.length := fun c hc =>
    (harrays c hc).1.trans hfirst.symm
  have hpair : ∀ p ∈ (first :: rest).zip ((first :: rest).map fun _ => (⟨.utf8, true⟩ : Field)),
      p.1.dataType = .utf8 ∧ p.2 = ⟨.utf8, true⟩ := by
    intro p hp
    obtain ⟨hcolumn, hfield⟩ := List.of_mem_zip hp
    obtain ⟨-, -, hsame⟩ := List.mem_map.mp hfield
    exact ⟨(harrays _ hcolumn).2, hsame.symm⟩
  have hnulls : ¬ ((first :: rest).zip ((first :: rest).map fun _ => (⟨.utf8, true⟩ : Field))).any
      (fun p => !p.2.nullable && p.1.hasNull) = true := by
    rw [List.any_eq_true]
    rintro ⟨p, hp, hnull⟩
    rw [(hpair p hp).2] at hnull
    cases hnull
  have htypes : ¬ ((first :: rest).zip ((first :: rest).map fun _ => (⟨.utf8, true⟩ : Field))).any
      (fun p => decide (p.1.dataType ≠ p.2.dataType)) = true := by
    rw [List.any_eq_true]
    rintro ⟨p, hp, htype⟩
    rw [(hpair p hp).1, (hpair p hp).2] at htype
    exact of_decide_eq_true htype rfl
  refine ⟨⟨first :: rest, first.length, hlen⟩, ?_, rfl, hfirst⟩
  rw [RecordBatch.tryNew, if_neg (by rw [List.length_map]; exact fun h => h rfl)]
  change (if _ then _ else _) = _
  rw [if_neg hnulls, dif_pos hlen, if_neg htypes]

/-- Columns of one length that fit make a batch that holds them. -/
theorem textBatch_eq_ok {cols : List (List (Option Text))} {n : ℕ} (hne : cols ≠ [])
    (h : Tabular cols n) : ∃ batch, textBatch cols = .ok batch ∧ Holds batch cols n := by
  obtain ⟨arrays, harrays, hlen, hall, hcolumn⟩ := mapM_stringArray h
  have hne' : arrays ≠ [] := by
    intro hnil
    rw [hnil] at hlen
    exact hne (List.length_eq_zero_iff.mp hlen.symm)
  obtain ⟨batch, hbatch, hcolumns, hrows⟩ := tryNew_utf8 hne' hall
  refine ⟨batch, ?_, hrows, ?_, ?_, ?_⟩
  · rw [textBatch, harrays, Outcome.ok_bind, hbatch]
  · intro i hi
    obtain ⟨fits, hget⟩ := hcolumn i cols[i] (List.getElem?_eq_getElem hi)
    rw [hcolumns, hget]
    rfl
  · intro i j
    rw [RecordBatch.operand, hcolumns, cellsAt]
    cases hcol : cols[j]? with
    | some col =>
      obtain ⟨fits, hget⟩ := hcolumn j col hcol
      rw [hget]
      rfl
    | none =>
      rw [List.getElem?_eq_none_iff] at hcol
      rw [List.getElem?_eq_none (hlen ▸ hcol)]
      rfl
  · intro col hcol
    obtain ⟨fits, hget⟩ := hcolumn 0 col hcol
    exact ⟨fits, hcolumns ▸ hget⟩

/-- A batch is made or the harness panics. -/
theorem textBatch_cases (cols : List (List (Option Text))) :
    (∃ batch, textBatch cols = .ok batch) ∨ textBatch cols = .panic := by
  have hcalls : ∀ arrays : Outcome RpcError (List Column), cols.mapM stringArray = arrays →
      (∃ cs, arrays = .ok cs) ∨ arrays = .panic := by
    induction cols with
    | nil =>
      intro arrays h
      exact .inl ⟨[], h.symm⟩
    | cons col cols ih =>
      intro arrays h
      rw [List.mapM_cons, stringArray_eq] at h
      split at h
      · rcases ih _ rfl with ⟨cs, hcs⟩ | hcs
        · rw [Outcome.ok_bind, hcs] at h
          exact .inl ⟨_, h.symm⟩
        · rw [Outcome.ok_bind, hcs] at h
          exact .inr h.symm
      · exact .inr h.symm
  rcases hcalls _ rfl with ⟨arrays, harrays⟩ | hpanic
  · rw [textBatch, harrays, Outcome.ok_bind]
    split
    · exact .inl ⟨_, rfl⟩
    · exact .inr rfl
  · rw [textBatch, hpanic]
    exact .inr rfl

/-- Arrow makes a batch only of columns of one length, and of one at least. -/
theorem length_eq_of_tryNew {schema : List Field} {columns : List Column} {b : RecordBatch}
    (h : RecordBatch.tryNew schema columns = .ok b) :
    columns ≠ [] ∧ ∀ c ∈ columns, c.length = b.rows := by
  unfold RecordBatch.tryNew at h
  split at h
  · cases h
  · split at h
    · cases h
    · rename_i first hfirst
      split at h
      · cases h
      · split at h
        · rename_i hlen
          split at h
          · cases h
          · obtain rfl := Outcome.ok.inj h
            refine ⟨?_, hlen⟩
            intro hnil
            rw [hnil] at hfirst
            cases hfirst
        · cases h

/-- Only columns of one length that fit make a batch. -/
theorem tabular_of_textBatch {cols : List (List (Option Text))} {batch : RecordBatch}
    (h : textBatch cols = .ok batch) : cols ≠ [] ∧ Tabular cols batch.rows := by
  obtain ⟨arrays, harrays, hnew⟩ := (Outcome.bind_eq_ok_iff _ _ _).mp h
  obtain ⟨hlen, hplace⟩ := getElem?_of_mapM_eq_ok harrays
  have hcolumn : ∀ col ∈ cols, ∃ fits, Column.utf8 col fits ∈ arrays := by
    intro col hcol
    obtain ⟨j, hj, hget⟩ := List.getElem_of_mem hcol
    obtain ⟨c, hc, hstring⟩ := hplace j col (by rw [List.getElem?_eq_getElem hj, hget])
    rw [stringArray_eq] at hstring
    split at hstring
    · rename_i hfits
      exact ⟨hfits, Outcome.ok.inj hstring ▸ List.mem_of_getElem? hc⟩
    · cases hstring
  split at hnew
  · rename_i b htry
    obtain rfl := Outcome.ok.inj hnew
    obtain ⟨hne, hrows⟩ := length_eq_of_tryNew htry
    refine ⟨?_, ?_, ?_⟩
    · intro hnil
      rw [hnil] at hlen
      exact hne (List.length_eq_zero_iff.mp hlen)
    · intro col hcol
      obtain ⟨fits, hmem⟩ := hcolumn col hcol
      exact hrows _ hmem
    · intro col hcol
      obtain ⟨fits, -⟩ := hcolumn col hcol
      exact fits
  · cases hnew

/-- Columns that do not fit or differ in length, or no column at all, panic. -/
theorem textBatch_panics {cols : List (List (Option Text))}
    (h : cols = [] ∨ ¬ ∃ n, Tabular cols n) : textBatch cols = .panic := by
  rcases textBatch_cases cols with ⟨batch, hbatch⟩ | hpanic
  · obtain ⟨hne, htable⟩ := tabular_of_textBatch hbatch
    rcases h with hnil | hnone
    · exact absurd hnil hne
    · exact absurd ⟨_, htable⟩ hnone
  · exact hpanic

namespace Adapter

variable {C : Crypto} {a : Adapter} {cols : List (List (Option Text))} {n : ℕ} {batch : RecordBatch}

/-- The result cell of a row of columns of text. -/
def scalarCell (C : Crypto) (a : Adapter) (cols : List (List (Option Text))) (i : ℕ) :
    Outcome RpcError (Option Text) :=
  cellOf (a.answer C) fun j => cellsAt cols i j

/-- A batch that holds the columns has their result cells. -/
theorem cell_eq_scalarCell (h : Holds batch cols n) (i : ℕ) :
    a.cell C batch i = a.scalarCell C cols i := by
  have hrow : a.row batch i = fun j : Fin a.arity => cellsAt cols i j := funext fun j => h.operand_eq i j
  rw [cell, scalarCell, hrow]

/-- The collected column of a returned batch has its cells. -/
theorem collect_process (params : ProcessParams) (hparams : params.outputSchema = onBind)
    (htext : batch.TextColumns a.arity) :
    (do
      let out ← a.process C params batch
      let s ← out.column 0
      let cells ← asString s
      pure ((List.range cells.length).map fun i => cells[i]?.join)) =
      RecordBatch.texts <$> a.process C params batch := by
  rw [process_eq_fillLoop htext]
  cases fillLoop (a.cell C batch) (List.range batch.rows) (Buffer.empty : StringBuilder) with
  | ok builder =>
    obtain ⟨b, hb, hcolumns, -⟩ := finishBatch_eq hparams builder
    have hcolumn : b.column 0 = .ok (.utf8 builder.items builder.fits) := by
      rw [RecordBatch.column, hcolumns]
      rfl
    rw [Outcome.ok_bind, hb, Outcome.ok_bind, hcolumn, Outcome.map_ok, RecordBatch.texts, hcolumns]
    exact congrArg Outcome.ok (map_range_getElem?_join builder.items)
  | _ => rfl

/-- On columns that make a batch the harness calls the rows in order, unless the builder
overflows. -/
theorem runScalar_eq (hcols : Tabular cols n) (harity : a.arity ≤ cols.length) :
    runScalar C a cols =
      if ((returned (a.scalarCell C cols) (List.range n)).map cellSize).sum ≤ i32Max then
        (List.range n).mapM (a.scalarCell C cols)
      else .panic := by
  have hne : cols ≠ [] := by
    intro hnil
    rw [hnil] at harity
    exact absurd a.arity_pos (Nat.not_lt.mpr harity)
  obtain ⟨batch, hbatch, hholds⟩ := textBatch_eq_ok hne hcols
  have htext : batch.TextColumns a.arity := fun i hi => hholds.text i (Nat.lt_of_lt_of_le hi harity)
  have hcells : a.cell C batch = a.scalarCell C cols := funext fun i => cell_eq_scalarCell hholds i
  have hparams : (ProcessParams.mk onBind).outputSchema = onBind := rfl
  rw [runScalar, hbatch, Outcome.ok_bind]
  rw [collect_process _ hparams htext, texts_process_eq hparams htext, outputSize, hcells,
    hholds.rows_eq]

/-- What the harness returns has the result cell of every row of columns that fit. -/
theorem rows_of_runScalar (harity : a.arity ≤ cols.length) {out : List (Option Text)}
    (h : runScalar C a cols = .ok out) :
    Tabular cols out.length ∧ ∀ i < out.length, ∃ c, out[i]? = some c ∧ a.scalarCell C cols i = .ok c := by
  obtain ⟨batch, hbatch, -⟩ := (Outcome.bind_eq_ok_iff _ _ _).mp h
  obtain ⟨-, htable⟩ := tabular_of_textBatch hbatch
  rw [runScalar_eq htable harity] at h
  split at h
  · obtain ⟨hlen, hrows⟩ := getElem?_of_mapM_eq_ok h
    rw [List.length_range] at hlen
    rw [hlen]
    exact ⟨htable, fun i hi => hrows i i (List.getElem?_range hi)⟩
  · cases h

end Adapter

end VgiMask
