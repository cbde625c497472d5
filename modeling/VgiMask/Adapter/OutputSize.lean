import VgiMask.Adapter.Batch
import VgiMask.Engine.FormatPreservation
import VgiMask.Engine.SmallDomain
import VgiMask.Engine.LayeredRedaction
import Mathlib.Algebra.Order.BigOperators.Group.List

/-!
# How much text a batch writes

The reversible functions write as many bytes as their values have and redaction writes at
most as many, so what a batch writes is bounded by its value column. A `Utf8` column cannot
hold more than the builder can, and such a batch is never refused. A `LargeUtf8` column can:
then the builder panics although every row is valid.
-/

namespace VgiMask

open Common

namespace Adapter

variable {C : Crypto} {a : Adapter} {params : ProcessParams} {batch : RecordBatch}

/-- Every adapter has a value column. -/
theorem arity_pos (a : Adapter) : 0 < a.arity := by cases a <;> exact Nat.succ_pos _

/-- The value of a row without nulls. -/
def valueCell (a : Adapter) (batch : RecordBatch) (i : ℕ) : Option Text :=
  if (allSome (a.row batch i)).isSome then batch.operand i 0 else none

/-- The number of text bytes of the values of the rows without nulls. -/
def valueSize (a : Adapter) (batch : RecordBatch) : ℕ :=
  ((List.range batch.rows).map fun i => cellSize (a.valueCell batch i)).sum

/-- The reversible functions answer with as many bytes as the value. -/
theorem utf8Len_answer_fpe (hpres : Ff1Preserves C Numerals) {forward : Bool}
    {ops : Fin (arity (.fpe forward)) → Text} {s : Text} (h : answer C (.fpe forward) ops = .ok s) :
    utf8Len s = utf8Len (ops 0) := by
  obtain ⟨f, -, hs⟩ := (Outcome.bind_eq_ok_iff _ _ _).mp h
  exact utf8Len_of_fpe hpres hs

/-- Redaction answers with at most as many bytes as the value. -/
theorem utf8Len_answer_redact {ops : Fin (arity .redact) → Text} {s : Text}
    (h : answer C .redact ops = .ok s) : utf8Len s ≤ utf8Len (ops 0) := by
  obtain ⟨mode, -, hs⟩ := (Outcome.bind_eq_ok_iff _ _ _).mp h
  exact Outcome.ok.inj hs ▸ utf8Len_redact_le (ops 0) mode

/-- A relation between answers and values holds between result cells and value cells. -/
theorem cellSize_of_cell {r : ℕ → ℕ → Prop} (hzero : r 0 0)
    (hanswer : ∀ ops s, a.answer C ops = .ok s → r (utf8Len s) (utf8Len (ops ⟨0, a.arity_pos⟩)))
    {i : ℕ} {c : Option Text} (h : a.cell C batch i = .ok c) :
    r (cellSize c) (cellSize (a.valueCell batch i)) := by
  cases hrow : allSome (a.row batch i) with
  | none =>
    rw [cell_of_none ((allSome_eq_none_iff _).mp hrow)] at h
    rw [← Outcome.ok.inj h, valueCell, hrow]
    exact hzero
  | some ops =>
    have hops := (allSome_eq_some_iff _ _).mp hrow
    rw [cell_of_some hops] at h
    obtain ⟨s, hs, rfl⟩ := (Outcome.map_eq_ok_iff _ _ _).mp h
    have hvalue : batch.operand i 0 = some (ops ⟨0, a.arity_pos⟩) := hops ⟨0, a.arity_pos⟩
    rw [valueCell, hrow, Option.isSome_some, if_pos rfl, hvalue]
    exact hanswer ops s ((Outcome.mapErr_eq_ok_iff _ _ _).mp hs)

/-- The reversible functions and redaction answer with at most as many bytes as the value. -/
theorem utf8Len_answer_le (hpres : Ff1Preserves C Numerals) (ha : a ≠ .token)
    {ops : Fin a.arity → Text} {s : Text} (h : a.answer C ops = .ok s) :
    utf8Len s ≤ utf8Len (ops ⟨0, a.arity_pos⟩) := by
  cases a with
  | fpe forward => exact Nat.le_of_eq (utf8Len_answer_fpe hpres h)
  | token => exact absurd rfl ha
  | redact => exact utf8Len_answer_redact h

/-- On valid rows the reversible functions write as many bytes as the values have. -/
theorem outputSize_eq (hpres : Ff1Preserves C Numerals) (ha : ∃ forward, a = .fpe forward)
    {cells : List (Option Text)} (hcells : (List.range batch.rows).mapM (a.cell C batch) = .ok cells) :
    a.outputSize C batch = a.valueSize batch := by
  obtain ⟨forward, rfl⟩ := ha
  rw [outputSize, returned_of_mapM_eq_ok hcells]
  exact sum_map_of_mapM_eq_ok hcells fun _ _ _ hc =>
    cellSize_of_cell rfl (fun _ _ h => utf8Len_answer_fpe hpres h) hc

/-- The reversible and the redacting functions write no more bytes than the values have, whether
rows are faulty or not. -/
theorem outputSize_le (hpres : Ff1Preserves C Numerals) (ha : a ≠ .token) :
    a.outputSize C batch ≤ a.valueSize batch :=
  sum_returned_le (List.range batch.rows) fun _ _ _ hc =>
    cellSize_of_cell (r := (· ≤ ·)) (Nat.le_refl 0) (fun _ _ h => utf8Len_answer_le hpres ha h) hc

/-- A `Utf8` value column holds no more bytes than the builder. -/
theorem valueSize_le_of_utf8 {cells : List (Option Text)} {fits : (cells.map cellSize).sum ≤ i32Max}
    (hcolumn : batch.columns[0]? = some (.utf8 cells fits)) : a.valueSize batch ≤ i32Max := by
  have hrows : batch.rows = cells.length :=
    (batch.length_eq _ (List.mem_of_getElem? hcolumn)).symm
  have hcell : ∀ i, cellSize (a.valueCell batch i) ≤ cellSize cells[i]?.join := by
    intro i
    have hoperand : batch.operand i 0 = cells[i]?.join := by
      rw [RecordBatch.operand, hcolumn]
      rfl
    rw [valueCell, hoperand]
    split
    · exact Nat.le_refl _
    · exact Nat.zero_le _
  calc a.valueSize batch
      ≤ ((List.range batch.rows).map fun i => cellSize cells[i]?.join).sum :=
        List.sum_le_sum fun i _ => hcell i
    _ = (((List.range batch.rows).map fun i => cells[i]?.join).map cellSize).sum := by
        rw [List.map_map]
        rfl
    _ = (cells.map cellSize).sum := by rw [hrows, map_range_getElem?_join]
    _ ≤ i32Max := fits

/-- On a `Utf8` value column the reversible and the redacting functions never write more than the
builder holds, whether rows are faulty or not. -/
theorem outputSize_le_of_utf8 (hpres : Ff1Preserves C Numerals) (ha : a ≠ .token)
    {cells : List (Option Text)} {fits : (cells.map cellSize).sum ≤ i32Max}
    (hcolumn : batch.columns[0]? = some (.utf8 cells fits)) : a.outputSize C batch ≤ i32Max :=
  (outputSize_le hpres ha).trans (valueSize_le_of_utf8 hcolumn)

end Adapter

/-- On valid rows the reversible functions write exactly the bytes of the values and redaction
at most these; the batch is answered exactly when the builder holds what is written, as it
does whenever the value column is a `Utf8` column, and panics otherwise. -/
theorem output_size (C : Crypto) (hans : Ff1Answers C Numerals) (hpres : Ff1Preserves C Numerals)
    (a : Adapter) (ha : a ≠ .token) (params : ProcessParams) (batch : RecordBatch)
    (hparams : params.outputSchema = onBind) (htext : batch.TextColumns a.arity)
    (hfpe : a.NoFpe C batch) (hgood : ∀ i < batch.rows, ∀ e, ¬ a.Faulty batch i e) :
    ((∃ cells fits, batch.columns[0]? = some (.utf8 cells fits)) → a.valueSize batch ≤ i32Max) ∧
      (a.valueSize batch ≤ i32Max →
        a.outputSize C batch ≤ i32Max ∧ ∃ out, a.process C params batch = .ok out) ∧
      ((∃ forward, a = .fpe forward) → a.outputSize C batch = a.valueSize batch) ∧
      a.outputSize C batch ≤ a.valueSize batch ∧
      ((∃ out, a.process C params batch = .ok out) ↔ a.outputSize C batch ≤ i32Max) ∧
      (a.process C params batch = .panic ↔ i32Max < a.outputSize C batch) := by
  obtain ⟨cells, hcells⟩ := Adapter.exists_cells (Adapter.faultyOrOk hans hpres hfpe) hgood
  have hle : a.outputSize C batch ≤ a.valueSize batch := Adapter.outputSize_le hpres ha
  obtain ⟨hok, hpanic⟩ := Adapter.process_cases hparams htext hcells
  refine ⟨?_, ?_, fun h => Adapter.outputSize_eq hpres h hcells, hle, hok, hpanic⟩
  · intro ⟨_, _, hcolumn⟩
    exact Adapter.valueSize_le_of_utf8 hcolumn
  · intro hfits
    exact ⟨Nat.le_trans hle hfits, hok.mpr (Nat.le_trans hle hfits)⟩

/-- The card numbers write the bytes they have. -/
theorem output_size_recorded :
    (Adapter.fpe true).outputSize recordedCrypto cardBatch = (Adapter.fpe true).valueSize cardBatch ∧
      (Adapter.fpe true).valueSize cardBatch = 35 := by
  have hcells : (List.range cardBatch.rows).mapM ((Adapter.fpe true).cell recordedCrypto cardBatch) =
      .ok [some "5476791465396370".toList, none, some "5476-7914-6539-6370".toList] := by
    decide +kernel
  exact ⟨(output_size recordedCrypto (recordedCrypto_answers Numerals)
    (recordedCrypto_preserves Numerals) (.fpe true) (by decide) ⟨onBind⟩ cardBatch rfl (by decide)
    (Adapter.noFpe_of_accepts recordedCrypto_accepts (recordedCrypto_preserves Ff1Domain)
      (by decide)) (Adapter.not_faulty_of_cells hcells)).2.2.1 ⟨true, rfl⟩, by decide⟩

/-- One row of a value of `n` letters and further operands, in columns without a byte limit. -/
def wideBatch (n : ℕ) (operands : List Text) : RecordBatch where
  columns := (List.replicate n 'x' :: operands).map fun t => .largeUtf8 [some t]
  rows := 1
  length_eq := by
    intro c hc
    obtain ⟨t, -, rfl⟩ := List.mem_map.mp hc
    rfl

section Wide

variable {C : Crypto} {n : ℕ} {operands : List Text}

/-- A run of one-byte letters has as many bytes. -/
theorem utf8Len_replicate (n : ℕ) {c : Char} (hc : c.utf8Size = 1) :
    utf8Len (List.replicate n c) = n := by
  rw [utf8Len, List.map_replicate, List.sum_replicate_nat, hc, Nat.mul_one]

/-- The columns of a wide batch hold text. -/
theorem textColumns_wideBatch {k : ℕ} (h : operands.length + 1 = k) :
    (wideBatch n operands).TextColumns k := by
  intro i hi
  have hlt : i < (List.replicate n 'x' :: operands).length := by
    rw [List.length_cons, h]
    exact hi
  rw [wideBatch, List.getElem?_map, Option.map_map, List.getElem?_eq_getElem hlt]
  rfl

/-- The operands of the one row of a wide batch. -/
theorem row_wideBatch {a : Adapter} (harity : operands.length + 1 = a.arity) (j : Fin a.arity) :
    a.row (wideBatch n operands) 0 j = some ((List.replicate n 'x' :: operands).getD j []) := by
  have hlt : j.val < (List.replicate n 'x' :: operands).length := by
    rw [List.length_cons, harity]
    exact j.isLt
  rw [Adapter.row, RecordBatch.operand, wideBatch, List.getElem?_map, List.getElem?_eq_getElem hlt,
    List.getD_eq_getElem?_getD, List.getElem?_eq_getElem hlt]
  rfl

/-- A wide value has no digits, so the digits profile returns it. -/
theorem cell_wideBatch_fpe (forward : Bool) :
    (Adapter.fpe forward).cell C (wideBatch n ["digits".toList, "k".toList]) 0 =
      .ok (some (List.replicate n 'x')) := by
  have hparse : Format.parse "digits".toList = .ok .digits := by decide
  have hslots : (List.replicate n 'x').filter DIGITS.contains = [] :=
    List.filter_replicate_of_neg (by decide)
  have hshort : DIGITS.radix ^ ((List.replicate n 'x').filter DIGITS.contains).length < minDomain := by
    rw [hslots]
    decide
  rw [Adapter.cell_of_some (row_wideBatch rfl)]
  change some <$> (Format.parse "digits".toList >>= fun f =>
    fpe C forward (List.replicate n 'x') f "k".toList).mapErr valueError = _
  rw [hparse, Outcome.ok_bind, fpe_eq_dispatch (by decide), fpeDispatch,
    fpeOverAlphabet_short C _ forward hshort]
  rfl

/-- The full mode stars all of a wide value. -/
theorem cell_wideBatch_redact :
    Adapter.redact.cell C (wideBatch n ["all".toList]) 0 = .ok (some (stars n)) := by
  have hparse : RedactMode.parse "all".toList = .ok .all := by decide
  rw [Adapter.cell_of_some (row_wideBatch rfl)]
  change some <$> (RedactMode.parse "all".toList >>= fun m =>
    pure (redact (List.replicate n 'x') m)).mapErr valueError = _
  rw [hparse, Outcome.ok_bind, redact, List.length_replicate]
  rfl

/-- A valid row that writes more than the builder holds makes the batch panic. -/
theorem wideBatch_panics {a : Adapter} {s : Text} (harity : operands.length + 1 = a.arity)
    (hcell : a.cell C (wideBatch n operands) 0 = .ok (some s)) (hover : i32Max < utf8Len s) :
    (∀ i < (wideBatch n operands).rows, ∀ e, ¬ a.Faulty (wideBatch n operands) i e) ∧
      a.process C ⟨onBind⟩ (wideBatch n operands) = .panic := by
  have hcells : (List.range (wideBatch n operands).rows).mapM (a.cell C (wideBatch n operands)) =
      .ok [some s] := by
    change [0].mapM (a.cell C (wideBatch n operands)) = _
    rw [List.mapM_cons, hcell]
    rfl
  have hsize : a.outputSize C (wideBatch n operands) = utf8Len s := by
    rw [Adapter.outputSize, returned_of_mapM_eq_ok hcells]
    rfl
  exact ⟨Adapter.not_faulty_of_cells hcells,
    (Adapter.process_cases rfl (textColumns_wideBatch harity) hcells).2.mpr (hsize ▸ hover)⟩

end Wide

/-- One valid row of 2^31 letters makes both directions and the redaction panic. -/
theorem output_size_overflows :
    (wideBatch (2 ^ 31) ["digits".toList, "k".toList]).TextColumns 3 ∧
      (∀ i < 1, ∀ e, ¬ (Adapter.fpe true).Faulty
        (wideBatch (2 ^ 31) ["digits".toList, "k".toList]) i e) ∧
      (Adapter.fpe true).process recordedCrypto ⟨onBind⟩
        (wideBatch (2 ^ 31) ["digits".toList, "k".toList]) = .panic ∧
      (Adapter.fpe false).process recordedCrypto ⟨onBind⟩
        (wideBatch (2 ^ 31) ["digits".toList, "k".toList]) = .panic ∧
      (wideBatch (2 ^ 31) ["all".toList]).TextColumns 2 ∧
      (∀ i < 1, ∀ e, ¬ Adapter.redact.Faulty (wideBatch (2 ^ 31) ["all".toList]) i e) ∧
      Adapter.redact.process recordedCrypto ⟨onBind⟩ (wideBatch (2 ^ 31) ["all".toList]) =
        .panic := by
  have hover : i32Max < 2 ^ 31 := by decide
  have hletters : i32Max < utf8Len (List.replicate (2 ^ 31) 'x') := by
    rw [utf8Len_replicate _ (by decide)]
    exact hover
  have hstars : i32Max < utf8Len (stars (2 ^ 31)) := by
    rw [stars, utf8Len_replicate _ (by decide)]
    exact hover
  obtain ⟨hvalid, hforward⟩ := wideBatch_panics rfl (cell_wideBatch_fpe (C := recordedCrypto) true) hletters
  obtain ⟨-, hbackward⟩ := wideBatch_panics rfl (cell_wideBatch_fpe (C := recordedCrypto) false) hletters
  obtain ⟨hredacted, hredact⟩ := wideBatch_panics rfl (cell_wideBatch_redact (C := recordedCrypto)) hstars
  exact ⟨textColumns_wideBatch rfl, hvalid, hforward, hbackward, textColumns_wideBatch rfl, hredacted,
    hredact⟩

end VgiMask
