import VgiMask.Adapter.Scalar
import VgiMask.Engine.KeyedCipher

/-!
# Batches through the adapters

The three loops are one: every row is answered from its own operands, in order, and the
result cells go into one builder. While they fit it, a batch fails exactly on its first
faulty row and otherwise has one cell for each row; and cutting it into pieces changes
nothing. When they outgrow the 32-bit offsets the builder panics.
-/

namespace VgiMask

open Common

/-- The cells of a batch of one text column. -/
def RecordBatch.texts (b : RecordBatch) : List (Option Text) :=
  match b.columns with
  | [.utf8 cells _] => cells
  | _ => []

namespace Adapter

variable {C : Crypto} {a : Adapter} {params : ProcessParams} {batch : RecordBatch}

/-- The number of text bytes of the result cells before the first row that has none. -/
def outputSize (C : Crypto) (a : Adapter) (batch : RecordBatch) : ℕ :=
  ((returned (a.cell C batch) (List.range batch.rows)).map cellSize).sum

/-- A row with all its operands and something wrong with them. -/
def Faulty (a : Adapter) (batch : RecordBatch) (i : ℕ) (e : MaskError) : Prop :=
  ∃ ops, (∀ j, a.row batch i j = some (ops j)) ∧ a.fault ops = some e

/-- No row makes FF1 report a failure. -/
def NoFpe (C : Crypto) (a : Adapter) (batch : RecordBatch) : Prop :=
  ∀ i < batch.rows, ∀ ops, (∀ j, a.row batch i j = some (ops j)) →
    (a.answer C ops).ErrsIn fun e => ¬ e.IsFpe

/-- Every row is faulty or has a cell. -/
def FaultyOrOk (C : Crypto) (a : Adapter) (batch : RecordBatch) : Prop :=
  ∀ i < batch.rows, (∃ e, a.Faulty batch i e) ∨ ∃ c, a.cell C batch i = .ok c

/-- The operand columns of a text batch are read without errors. -/
theorem column_eq (htext : batch.TextColumns a.arity) {j : ℕ} (hj : j < a.arity) :
    ∃ c, batch.column j = .ok c ∧
      ∀ i < batch.rows, textStr c i = .ok (batch.operand i j) := by
  obtain ⟨c, hc, hctext⟩ := Option.map_eq_some_iff.mp (htext j hj)
  refine ⟨c, getChecked_of_getElem? hc, fun i hi => ?_⟩
  have hlen : c.length = batch.rows := batch.length_eq c (List.mem_of_getElem? hc)
  rw [textStr_eq hctext (hlen ▸ hi), RecordBatch.operand, hc, Option.bind_some]

/-- A row with all its operands has the engine's answer as its cell. -/
theorem cell_of_some {i : ℕ} {ops : Fin a.arity → Text} (h : ∀ j, a.row batch i j = some (ops j)) :
    a.cell C batch i = some <$> (a.answer C ops).mapErr valueError := by
  rw [cell, cellOf, (allSome_eq_some_iff _ ops).mpr h]

/-- A row that lacks an operand has a null as its cell. -/
theorem cell_of_none {i : ℕ} (h : ∃ j, a.row batch i j = none) : a.cell C batch i = .ok none := by
  rw [cell, cellOf, (allSome_eq_none_iff _).mpr h]

/-- The cell of a converted call goes into the builder. -/
theorem bind_push_eq (x : Outcome MaskError Text) (out : StringBuilder) :
    ((some <$> x.mapErr valueError) >>= out.push) = x.mapErr valueError >>= out.appendValue := by
  cases x <;> rfl

/-- A step over two operands appends the cell of the row. -/
theorem step_two (cells : Fin 2 → Option Text) (answer : (Fin 2 → Text) → Outcome MaskError Text)
    (step : Text → Text → Outcome RpcError StringBuilder) (out : StringBuilder)
    (h : ∀ ops, step (ops 0) (ops 1) = (answer ops).mapErr valueError >>= out.appendValue) :
    (match cells 0, cells 1 with
      | some x, some y => step x y
      | _, _ => out.appendNull) =
      cellOf answer cells >>= out.push := by
  cases hcells : allSome cells with
  | some ops =>
    have hops := (allSome_eq_some_iff _ _).mp hcells
    rw [cellOf, hcells, hops 0, hops 1, bind_push_eq, ← h]
  | none =>
    obtain ⟨j, hj⟩ := (allSome_eq_none_iff _).mp hcells
    rw [cellOf, hcells]
    match j, hj with
    | 0, hj => rw [hj]; rfl
    | 1, hj => rw [hj]; cases cells 0 <;> rfl

/-- A step over three operands appends the cell of the row. -/
theorem step_three (cells : Fin 3 → Option Text)
    (answer : (Fin 3 → Text) → Outcome MaskError Text)
    (step : Text → Text → Text → Outcome RpcError StringBuilder) (out : StringBuilder)
    (h : ∀ ops, step (ops 0) (ops 1) (ops 2) = (answer ops).mapErr valueError >>= out.appendValue) :
    (match cells 0, cells 1, cells 2 with
      | some x, some y, some z => step x y z
      | _, _, _ => out.appendNull) =
      cellOf answer cells >>= out.push := by
  cases hcells : allSome cells with
  | some ops =>
    have hops := (allSome_eq_some_iff _ _).mp hcells
    rw [cellOf, hcells, hops 0, hops 1, hops 2, bind_push_eq, ← h]
  | none =>
    obtain ⟨j, hj⟩ := (allSome_eq_none_iff _).mp hcells
    rw [cellOf, hcells]
    match j, hj with
    | 0, hj => rw [hj]; rfl
    | 1, hj => rw [hj]; cases cells 0 <;> rfl
    | 2, hj => rw [hj]; cases cells 0 <;> cases cells 1 <;> rfl

/-- Each adapter's loop fills the builder with the cells of the rows. -/
theorem process_eq_fillLoop (htext : batch.TextColumns a.arity) :
    a.process C params batch =
      fillLoop (a.cell C batch) (List.range batch.rows) Buffer.empty >>= finishBatch params := by
  cases a with
  | fpe forward =>
    obtain ⟨value, hvalue, hv⟩ := column_eq htext (by decide : 0 < 3)
    obtain ⟨fmt, hfmt, hf⟩ := column_eq htext (by decide : 1 < 3)
    obtain ⟨key, hkey, hk⟩ := column_eq htext (by decide : 2 < 3)
    rw [process, runFpe, hvalue, hfmt, hkey]
    change (_ >>= finishBatch params) = _
    congr 1
    apply foldlM_congr_mem
    intro i hi out
    have hi := List.mem_range.mp hi
    rw [hv i hi, hf i hi, hk i hi, Outcome.ok_bind, Outcome.ok_bind, Outcome.ok_bind]
    refine step_three (row (.fpe forward) batch i) (answer C (.fpe forward)) (fun v fmtName k => do
      let format ← (Format.parse fmtName).mapErr valueError
      let s ← (VgiMask.fpe C forward v format k).mapErr valueError
      out.appendValue s) out fun ops => ?_
    dsimp only [answer]
    cases Format.parse (ops 1) <;> rfl
  | token =>
    obtain ⟨value, hvalue, hv⟩ := column_eq htext (by decide : 0 < 2)
    obtain ⟨key, hkey, hk⟩ := column_eq htext (by decide : 1 < 2)
    rw [process, maskTokenProcess, hvalue, hkey]
    change (_ >>= finishBatch params) = _
    congr 1
    apply foldlM_congr_mem
    intro i hi out
    have hi := List.mem_range.mp hi
    rw [hv i hi, hk i hi, Outcome.ok_bind, Outcome.ok_bind]
    exact step_two (row .token batch i) (answer C .token)
      (fun v k => (VgiMask.token C v k).mapErr valueError >>= out.appendValue) out fun ops => rfl
  | redact =>
    obtain ⟨value, hvalue, hv⟩ := column_eq htext (by decide : 0 < 2)
    obtain ⟨mode, hmode, hm⟩ := column_eq htext (by decide : 1 < 2)
    rw [process, maskRedactProcess, hvalue, hmode]
    change (_ >>= finishBatch params) = _
    congr 1
    apply foldlM_congr_mem
    intro i hi out
    have hi := List.mem_range.mp hi
    rw [hv i hi, hm i hi, Outcome.ok_bind, Outcome.ok_bind]
    refine step_two (row .redact batch i) (answer C .redact) (fun v m => do
      let mode ← (RedactMode.parse m).mapErr valueError
      out.appendValue (VgiMask.redact v mode)) out fun ops => ?_
    dsimp only [answer]
    cases RedactMode.parse (ops 1) <;> rfl

/-- The built array is a batch of the announced schema. -/
theorem finishBatch_eq (hparams : params.outputSchema = onBind) (out : StringBuilder) :
    ∃ b, finishBatch params out = .ok b ∧ b.columns = [out.finish] ∧ b.rows = out.items.length := by
  have hlen : ∀ c ∈ [out.finish], c.length = out.finish.length := by
    intro c hc
    rw [List.mem_singleton.mp hc]
  refine ⟨⟨[out.finish], out.finish.length, hlen⟩, ?_, rfl, rfl⟩
  rw [finishBatch, hparams]
  change (if h : ∀ c ∈ [out.finish], c.length = out.finish.length then
    Outcome.ok (RecordBatch.mk [out.finish] out.finish.length h)
    else Outcome.err ArrowError.rowCount).mapErr RpcError.runtimeError = _
  rw [dif_pos hlen, Outcome.mapErr_ok]

/-- The cells of a returned batch are those the loop built. -/
theorem texts_process (hparams : params.outputSchema = onBind) (htext : batch.TextColumns a.arity) :
    RecordBatch.texts <$> a.process C params batch =
      Buffer.items <$> fillLoop (a.cell C batch) (List.range batch.rows)
        (Buffer.empty : StringBuilder) := by
  rw [process_eq_fillLoop htext]
  cases fillLoop (a.cell C batch) (List.range batch.rows) (Buffer.empty : StringBuilder) with
  | ok out =>
    obtain ⟨b, hb, hcolumns, -⟩ := finishBatch_eq hparams out
    rw [Outcome.ok_bind, hb, Outcome.map_ok, RecordBatch.texts, hcolumns]
    rfl
  | _ => rfl

/-- While the builder fits them, the cells are the rows' own, in order; else it panics. -/
theorem texts_process_eq (hparams : params.outputSchema = onBind)
    (htext : batch.TextColumns a.arity) :
    RecordBatch.texts <$> a.process C params batch =
      if a.outputSize C batch ≤ i32Max then (List.range batch.rows).mapM (a.cell C batch)
      else .panic := by
  rw [texts_process hparams htext, fillLoop_eq]
  change (if a.outputSize C batch ≤ i32Max then _ else _) = _
  congr 1
  exact id_map _

/-- A batch of valid rows is answered or panics, as the builder fits what it writes or not. -/
theorem process_cases (hparams : params.outputSchema = onBind) (htext : batch.TextColumns a.arity)
    {cells : List (Option Text)}
    (hcells : (List.range batch.rows).mapM (a.cell C batch) = .ok cells) :
    ((∃ out, a.process C params batch = .ok out) ↔ a.outputSize C batch ≤ i32Max) ∧
      (a.process C params batch = .panic ↔ i32Max < a.outputSize C batch) := by
  rw [← Outcome.exists_map_eq_ok_iff RecordBatch.texts, ← Outcome.map_eq_panic_iff RecordBatch.texts,
    texts_process_eq hparams htext, hcells]
  split
  · rename_i hfits
    exact ⟨iff_of_true ⟨cells, rfl⟩ hfits, iff_of_false nofun (Nat.not_lt.mpr hfits)⟩
  · rename_i hover
    exact ⟨iff_of_false (fun ⟨_, h⟩ => by cases h) hover, iff_of_true rfl (Nat.not_le.mp hover)⟩

/-- A faulty row fails with its fault. -/
theorem cell_of_faulty {i : ℕ} {e : MaskError} (h : a.Faulty batch i e) :
    a.cell C batch i = .err (valueError e) := by
  obtain ⟨ops, hops, hfault⟩ := h
  rcases answer_cases C a ops with ⟨e', hfault', he', -⟩ | ⟨hnone, -⟩
  · rw [hfault] at hfault'
    rw [cell_of_some hops, he', ← Option.some.inj hfault', Outcome.mapErr_err, Outcome.map_err]
  · rw [hfault] at hnone
    cases hnone

/-- A row with a result cell has no fault. -/
theorem not_faulty_of_cells {cells : List (Option Text)}
    (hcells : (List.range batch.rows).mapM (a.cell C batch) = .ok cells) :
    ∀ i < batch.rows, ∀ e, ¬ a.Faulty batch i e := by
  intro i hi e hfaulty
  obtain ⟨c, hc⟩ := (exists_mapM_eq_ok_iff _ _).mp ⟨cells, hcells⟩ i (List.mem_range.mpr hi)
  rw [cell_of_faulty hfaulty] at hc
  cases hc

/-- Where FF1 answers and reports no failure, every row is faulty or has a cell. -/
theorem faultyOrOk (hans : Ff1Answers C Numerals) (hpres : Ff1Preserves C Numerals)
    (hfpe : a.NoFpe C batch) : a.FaultyOrOk C batch := by
  intro i hi
  cases hrow : allSome (a.row batch i) with
  | none => exact .inr ⟨none, cell_of_none ((allSome_eq_none_iff _).mp hrow)⟩
  | some ops =>
    have hops := (allSome_eq_some_iff _ _).mp hrow
    rcases answer_cases C a ops with ⟨e, hfault, -, -⟩ | ⟨-, herrs⟩
    · exact .inl ⟨e, ops, hops, hfault⟩
    · rcases (answer_answers hans hpres ops).ok_or_err with ⟨s, hs⟩ | ⟨e, he⟩
      · exact .inr ⟨some s, by rw [cell_of_some hops, hs]; rfl⟩
      · exact absurd (herrs e he) (hfpe i hi ops hops e he)

/-- Where every row is faulty or has a cell, it has one exactly when it is not faulty. -/
theorem cell_ok_iff (hrows : a.FaultyOrOk C batch) {i : ℕ} (hi : i < batch.rows) :
    (∃ c, a.cell C batch i = .ok c) ↔ ∀ e, ¬ a.Faulty batch i e := by
  constructor
  · intro ⟨c, hc⟩ e hfaulty
    rw [cell_of_faulty hfaulty] at hc
    cases hc
  · intro hnot
    rcases hrows i hi with ⟨e, hfaulty⟩ | hok
    · exact absurd hfaulty (hnot e)
    · exact hok

/-- A batch without faults that FF1 does not fail on has a result cell for every row. -/
theorem exists_cells (hrows : a.FaultyOrOk C batch)
    (hgood : ∀ i < batch.rows, ∀ e, ¬ a.Faulty batch i e) :
    ∃ cells, (List.range batch.rows).mapM (a.cell C batch) = .ok cells := by
  rw [exists_mapM_eq_ok_iff]
  intro i hi
  have hi := List.mem_range.mp hi
  exact (cell_ok_iff hrows hi).mpr (hgood i hi)

/-- A batch that fits fails exactly with the fault of its first faulty row. -/
theorem process_eq_err_iff (hparams : params.outputSchema = onBind)
    (htext : batch.TextColumns a.arity) (hrows : a.FaultyOrOk C batch)
    (hfits : a.outputSize C batch ≤ i32Max) (re : RpcError) :
    a.process C params batch = .err re ↔
      ∃ i < batch.rows, ∃ e, a.Faulty batch i e ∧ re = valueError e ∧
        ∀ j < i, ∀ e', ¬ a.Faulty batch j e' := by
  rw [← Outcome.map_eq_err_iff RecordBatch.texts, texts_process_eq hparams htext, if_pos hfits,
    mapM_range_eq_err_iff]
  constructor
  · intro ⟨i, hi, he, hbefore⟩
    refine ⟨i, hi, ?_⟩
    have hfirst : ∀ j < i, ∀ e', ¬ a.Faulty batch j e' := fun j hj =>
      (cell_ok_iff hrows (Nat.lt_trans hj hi)).mp (hbefore j hj)
    rcases hrows i hi with ⟨e, hfaulty⟩ | ⟨c, hc⟩
    · rw [cell_of_faulty hfaulty] at he
      exact ⟨e, hfaulty, (Outcome.err.inj he).symm, hfirst⟩
    · rw [hc] at he
      cases he
  · intro ⟨i, hi, e, hfaulty, hre, hfirst⟩
    rw [hre]
    exact ⟨i, hi, cell_of_faulty hfaulty, fun j hj =>
      (cell_ok_iff hrows (Nat.lt_trans hj hi)).mpr (hfirst j hj)⟩

/-- A batch that fits and has no faulty row returns one cell for each row. -/
theorem process_eq_ok (hparams : params.outputSchema = onBind)
    (htext : batch.TextColumns a.arity) (hrows : a.FaultyOrOk C batch)
    (hfits : a.outputSize C batch ≤ i32Max) (hgood : ∀ i < batch.rows, ∀ e, ¬ a.Faulty batch i e) :
    ∃ out cells fits, a.process C params batch = .ok out ∧ out.columns = [.utf8 cells fits] ∧
      cells.length = batch.rows ∧ ∀ i < batch.rows,
        ((∃ j, a.row batch i j = none) → cells[i]? = some none) ∧
          ∀ ops, (∀ j, a.row batch i j = some (ops j)) →
            ∃ s, a.answer C ops = .ok s ∧ cells[i]? = some (some s) := by
  obtain ⟨cells, hcells⟩ := exists_cells hrows hgood
  have hloop : Buffer.items <$> fillLoop (a.cell C batch) (List.range batch.rows)
      (Buffer.empty : StringBuilder) = .ok cells := by
    rw [← texts_process hparams htext, texts_process_eq hparams htext, if_pos hfits, hcells]
  obtain ⟨builder, hbuilder, rfl⟩ := (Outcome.map_eq_ok_iff _ _ _).mp hloop
  obtain ⟨out, hout, hcolumns, -⟩ := finishBatch_eq hparams builder
  obtain ⟨hlen, hrows⟩ := getElem?_of_mapM_eq_ok hcells
  rw [List.length_range] at hlen
  refine ⟨out, builder.items, builder.fits, ?_, hcolumns, hlen, fun i hi => ?_⟩
  · rw [process_eq_fillLoop htext, hbuilder, Outcome.ok_bind, hout]
  · obtain ⟨c, hc, hcell⟩ := hrows i i (List.getElem?_range hi)
    refine ⟨fun hnull => ?_, fun ops hops => ?_⟩
    · rw [cell_of_none hnull] at hcell
      rw [hc, ← Outcome.ok.inj hcell]
    · rw [cell_of_some hops] at hcell
      obtain ⟨s, hs, rfl⟩ := (Outcome.map_eq_ok_iff _ _ _).mp hcell
      exact ⟨s, (Outcome.mapErr_eq_ok_iff _ _ _).mp hs, hc⟩

/-- A row of a slice has the cell of the row of the batch. -/
theorem cell_slice {offset n i : ℕ} (hi : i < n) :
    a.cell C (batch.slice offset n) i = a.cell C batch (offset + i) := by
  have hrow : a.row (batch.slice offset n) i = a.row batch (offset + i) :=
    funext fun j => batch.operand_slice hi j
  rw [cell, cell, hrow]

/-- A slice inside a batch is processed like its rows in the batch. -/
theorem texts_process_slice (hparams : params.outputSchema = onBind)
    (htext : batch.TextColumns a.arity) {offset n : ℕ} (hinside : offset + n ≤ batch.rows) :
    RecordBatch.texts <$> a.process C params (batch.slice offset n) =
      Buffer.items <$> fillLoop (a.cell C batch) (List.range' offset n)
        (Buffer.empty : StringBuilder) := by
  have hrows : (batch.slice offset n).rows = n := by
    change min n (batch.rows - offset) = n
    omega
  rw [texts_process hparams (htext.slice offset n), hrows, List.range'_eq_map_range]
  congr 1
  rw [fillLoop, fillLoop, List.foldlM_map]
  apply foldlM_congr_mem
  intro i hi out
  rw [cell_slice (List.mem_range.mp hi)]

/-- Cutting a batch that fits into consecutive pieces changes nothing. -/
theorem texts_process_cut (hparams : params.outputSchema = onBind)
    (htext : batch.TextColumns a.arity) (hfits : a.outputSize C batch ≤ i32Max) {sizes : List ℕ}
    (hsizes : sizes.sum = batch.rows) :
    RecordBatch.texts <$> a.process C params batch =
      List.flatten <$> (batch.cut sizes).mapM fun p => RecordBatch.texts <$> a.process C params p := by
  have hpiece : ∀ p ∈ pieces 0 sizes,
      RecordBatch.texts <$> a.process C params (batch.slice p.1 p.2) =
        Buffer.items <$> fillLoop (a.cell C batch) (List.range' p.1 p.2)
          (Buffer.empty : StringBuilder) := by
    intro p hp
    have hinside := mem_pieces hp
    exact texts_process_slice hparams htext (by omega)
  have hreturned : ((returned (a.cell C batch) (List.range' 0 sizes.sum)).map cellSize).sum ≤ i32Max := by
    rw [hsizes, ← List.range_eq_range']
    exact hfits
  have hcut : ((batch.cut sizes).mapM fun p => RecordBatch.texts <$> a.process C params p) =
      (pieces 0 sizes).mapM fun p => (List.range' p.1 p.2).mapM (a.cell C batch) := by
    rw [RecordBatch.cut, List.mapM_map]
    exact (mapM_congr_mem hpiece).trans (fillLoop_pieces (a.cell C batch) 0 sizes hreturned)
  rw [hcut, ← mapM_range_pieces, hsizes, ← List.range_eq_range', texts_process_eq hparams htext,
    if_pos hfits]

/-- With FF1 on its domain, no row makes it fail. -/
theorem noFpe_of_accepts (hacc : Ff1Accepts C Ff1Domain) (hpres : Ff1Preserves C Ff1Domain)
    (hlen : ∀ i < batch.rows, (batch.operand i 0).elim 0 List.length ≤ u32Max) :
    a.NoFpe C batch := by
  intro i hi ops hops
  cases a with
  | fpe forward =>
    have hv : batch.operand i 0 = some (ops 0) := hops 0
    have hbound := hlen i hi
    rw [hv] at hbound
    exact Outcome.ErrsIn.bind (Format.parse_not_isFpe (ops 1)) fun f =>
      fpe_not_isFpe hacc hpres f (ops 2) forward hbound
  | token =>
    simp only [answer]
    by_cases hkey : ops 1 = []
    · rw [hkey, token_nil_key]
      exact Outcome.errsIn_err MaskError.not_isFpe_emptyKey
    · obtain ⟨s, hs, -⟩ := token_eq_ok C (ops 0) hkey
      rw [hs]
      exact Outcome.errsIn_ok s
  | redact =>
    exact Outcome.ErrsIn.bind (RedactMode.parse_not_isFpe (ops 1)) fun m => Outcome.errsIn_ok _

end Adapter

/-- A batch whose result cells fit 32-bit offsets fails exactly on its first faulty row, and
otherwise has one cell for each row, which depends on that row alone; cutting it into
consecutive pieces changes nothing. -/
theorem process_batch (C : Crypto) (hans : Ff1Answers C Numerals) (hpres : Ff1Preserves C Numerals)
    (a : Adapter) (params : ProcessParams) (batch : RecordBatch)
    (hparams : params.outputSchema = onBind) (htext : batch.TextColumns a.arity)
    (hfpe : a.NoFpe C batch) (hfits : a.outputSize C batch ≤ i32Max) :
    (∀ re, a.process C params batch = .err re ↔
        ∃ i < batch.rows, ∃ e, a.Faulty batch i e ∧ re = valueError e ∧
          ∀ j < i, ∀ e', ¬ a.Faulty batch j e') ∧
      ((∀ i < batch.rows, ∀ e, ¬ a.Faulty batch i e) →
        ∃ out cells fits, a.process C params batch = .ok out ∧ out.columns = [.utf8 cells fits] ∧
          cells.length = batch.rows ∧ ∀ i < batch.rows,
            ((∃ j, a.row batch i j = none) → cells[i]? = some none) ∧
              ∀ ops, (∀ j, a.row batch i j = some (ops j)) →
                ∃ s, a.answer C ops = .ok s ∧ cells[i]? = some (some s)) ∧
      ∀ sizes : List ℕ, sizes.sum = batch.rows →
        ((∃ out, a.process C params batch = .ok out) ↔
            ∀ p ∈ batch.cut sizes, ∃ out, a.process C params p = .ok out) ∧
          RecordBatch.texts <$> a.process C params batch =
            List.flatten <$> (batch.cut sizes).mapM fun p =>
              RecordBatch.texts <$> a.process C params p := by
  have hrows : a.FaultyOrOk C batch := Adapter.faultyOrOk hans hpres hfpe
  refine ⟨Adapter.process_eq_err_iff hparams htext hrows hfits,
    Adapter.process_eq_ok hparams htext hrows hfits, fun sizes hsizes => ⟨?_, ?_⟩⟩
  · rw [← Outcome.exists_map_eq_ok_iff RecordBatch.texts,
      Adapter.texts_process_cut hparams htext hfits hsizes, Outcome.exists_map_eq_ok_iff,
      exists_mapM_eq_ok_iff]
    apply forall₂_congr
    intro p _
    exact Outcome.exists_map_eq_ok_iff RecordBatch.texts _
  · exact Adapter.texts_process_cut hparams htext hfits hsizes

/-- A batch of three card numbers, one of them null, in two spellings of the profile. -/
def cardBatch : RecordBatch where
  columns := [
    .utf8 [some "4012888888881881".toList, none, some "4012-8888-8888-1880".toList] (by decide),
    .utf8 [some "card".toList, some "bogus".toList, some " PAN ".toList] (by decide),
    .largeUtf8 [some "k".toList, some [], some "k".toList]]
  rows := 3
  length_eq := by decide

/-- The null row hides its unknown profile, and two pieces give what the batch gives. -/
theorem process_batch_recorded :
    RecordBatch.texts <$> (Adapter.fpe true).process recordedCrypto ⟨onBind⟩ cardBatch =
        .ok [some "5476791465396370".toList, none, some "5476-7914-6539-6370".toList] ∧
      RecordBatch.texts <$> (Adapter.fpe true).process recordedCrypto ⟨onBind⟩ cardBatch =
        List.flatten <$> (cardBatch.cut [1, 2]).mapM fun p =>
          RecordBatch.texts <$> (Adapter.fpe true).process recordedCrypto ⟨onBind⟩ p :=
  ⟨by decide +kernel, ((process_batch recordedCrypto (recordedCrypto_answers Numerals)
    (recordedCrypto_preserves Numerals) (.fpe true) ⟨onBind⟩ cardBatch rfl (by decide)
    (Adapter.noFpe_of_accepts recordedCrypto_accepts (recordedCrypto_preserves Ff1Domain)
      (by decide)) (by decide +kernel)).2.2 [1, 2] rfl).2⟩

/-- Repeated cells hold as many bytes as one cell times their number. -/
theorem cellSize_replicate (n : ℕ) (cell : Option Text) :
    ((List.replicate n cell).map cellSize).sum = n * cellSize cell := by
  rw [List.map_replicate, List.sum_replicate_nat]

/-- Cells of one byte fit as often as there are offsets. -/
theorem cellSize_replicate_le {n : ℕ} {cell : Option Text} (hcell : cellSize cell = 1)
    (h : n ≤ i32Max) : ((List.replicate n cell).map cellSize).sum ≤ i32Max := by
  rw [cellSize_replicate, hcell, Nat.mul_one]
  exact h

/-- One value and one key, each of one byte, in every row. -/
def repeatedBatch (n : ℕ) (h : n ≤ i32Max) : RecordBatch where
  columns := [
    .utf8 (List.replicate n (some ['x'])) (cellSize_replicate_le (by decide) h),
    .utf8 (List.replicate n (some ['k'])) (cellSize_replicate_le (by decide) h)]
  rows := n
  length_eq := by
    intro c hc
    simp only [List.mem_cons, List.not_mem_nil, or_false] at hc
    rcases hc with rfl | rfl
    · exact List.length_replicate
    · exact List.length_replicate

section Repeated

variable {n : ℕ} (h : n ≤ i32Max)

/-- The repeated batch has text columns. -/
theorem textColumns_repeatedBatch : (repeatedBatch n h).TextColumns Adapter.token.arity := by
  intro i hi
  match i, hi with
  | 0, _ => rfl
  | 1, _ => rfl

/-- Every row of the repeated batch has the value and the key. -/
theorem operand_repeatedBatch {i : ℕ} (hi : i < n) :
    (repeatedBatch n h).operand i 0 = some ['x'] ∧ (repeatedBatch n h).operand i 1 = some ['k'] := by
  constructor
  · change ((List.replicate n (some ['x']))[i]?).join = _
    rw [List.getElem?_replicate_of_lt hi]
    rfl
  · change ((List.replicate n (some ['k']))[i]?).join = _
    rw [List.getElem?_replicate_of_lt hi]
    rfl

/-- Every row of the repeated batch has the token of the value. -/
theorem cells_repeatedBatch (C : Crypto) : ∃ s, utf8Len s = 32 ∧
    (List.range (repeatedBatch n h).rows).mapM (Adapter.token.cell C (repeatedBatch n h)) =
      .ok (List.replicate n (some s)) := by
  obtain ⟨s, hs, hsize⟩ := token_eq_ok C ['x'] (List.cons_ne_nil 'k' [])
  have hcell : ∀ i ∈ List.range n, Adapter.token.cell C (repeatedBatch n h) (id i) = .ok (some s) := by
    intro i hi
    obtain ⟨hx, hk⟩ := operand_repeatedBatch h (List.mem_range.mp hi)
    have hrow : ∀ j, Adapter.token.row (repeatedBatch n h) i j =
        some (if j = 0 then ['x'] else ['k']) := by
      intro j
      match j with
      | 0 => exact hx
      | 1 => exact hk
    rw [id, Adapter.cell_of_some hrow]
    change some <$> (token C ['x'] ['k']).mapErr valueError = _
    rw [hs]
    rfl
  have hcells := mapM_map_eq_ok _ id (fun _ => some s) (List.range n) hcell
  rw [List.map_id, List.map_const', List.length_range] at hcells
  exact ⟨s, hsize, hcells⟩

/-- No row of the repeated batch is faulty. -/
theorem not_faulty_repeatedBatch {i : ℕ} (hi : i < n) (e : MaskError) :
    ¬ Adapter.token.Faulty (repeatedBatch n h) i e := by
  obtain ⟨s, -, hcells⟩ := cells_repeatedBatch h recordedCrypto
  exact Adapter.not_faulty_of_cells hcells i hi e

/-- The tokens of enough rows outgrow the builder, which panics. -/
theorem token_repeatedBatch (C : Crypto) (hover : i32Max < n * 32) :
    Adapter.token.process C ⟨onBind⟩ (repeatedBatch n h) = .panic := by
  obtain ⟨s, hsize, hcells⟩ := cells_repeatedBatch h C
  have hsum : Adapter.token.outputSize C (repeatedBatch n h) = n * 32 := by
    rw [Adapter.outputSize, returned_of_mapM_eq_ok hcells, cellSize_replicate]
    exact congrArg (n * ·) hsize
  exact (Adapter.process_cases rfl (textColumns_repeatedBatch h) hcells).2.mpr (hsum ▸ hover)

end Repeated

/-- The columns of 2^26 rows of one byte fit 32-bit offsets. -/
theorem manyRows_le : 2 ^ 26 ≤ i32Max := by decide

/-- Enough rows without a fault make the token adapter panic, although FF1 never fails. -/
theorem process_batch_overflows :
    Ff1Answers recordedCrypto Numerals ∧ Ff1Preserves recordedCrypto Numerals ∧
      (repeatedBatch (2 ^ 26) manyRows_le).TextColumns Adapter.token.arity ∧
      Adapter.token.NoFpe recordedCrypto (repeatedBatch (2 ^ 26) manyRows_le) ∧
      (∀ i < 2 ^ 26, ∀ e, ¬ Adapter.token.Faulty (repeatedBatch (2 ^ 26) manyRows_le) i e) ∧
      Adapter.token.process recordedCrypto ⟨onBind⟩ (repeatedBatch (2 ^ 26) manyRows_le) =
        .panic := by
  refine ⟨recordedCrypto_answers Numerals, recordedCrypto_preserves Numerals,
    textColumns_repeatedBatch _, ?_, fun i hi e => not_faulty_repeatedBatch _ hi e,
    token_repeatedBatch _ recordedCrypto (by decide)⟩
  apply Adapter.noFpe_of_accepts recordedCrypto_accepts (recordedCrypto_preserves Ff1Domain)
  intro i hi
  rw [(operand_repeatedBatch manyRows_le hi).1]
  decide

end VgiMask
