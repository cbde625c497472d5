import VgiMask.Engine.Names
import VgiMask.Common.RowLoop
import VgiMask.Common.Utf8

/-!
# Columns, batches and the string builder

A column keeps its cells with their nulls; a `Utf8` column has 32-bit offsets and holds at
most `i32::MAX` bytes of text, so one that holds more cannot be built. Only what the
adapters read or return is kept: a batch has its columns and its row count, a field its type
and nullability.
-/

namespace VgiMask

open Common

/-- The largest 32-bit offset. -/
def i32Max : ℕ := 2 ^ 31 - 1

/-- The number of text bytes of a cell. -/
def cellSize (cell : Option Text) : ℕ := cell.elim 0 utf8Len

/-- The type of a column; any other type is kept as its debug text. -/
inductive DataType where
  | utf8
  | largeUtf8
  | other (debug : Text)
  deriving DecidableEq

/-- An array with the nulls that `Array::is_null` reports, which is the physical validity: a row of
a null array, or a dictionary key of a null value, is not such a null. The values of other types
are never read. -/
inductive Column where
  | utf8 (cells : List (Option Text)) (fits : (cells.map cellSize).sum ≤ i32Max)
  | largeUtf8 (cells : List (Option Text))
  | other (debug : Text) (nulls : List Bool)

namespace Column

/-- The number of rows. -/
def length : Column → ℕ
  | .utf8 cells _ => cells.length
  | .largeUtf8 cells => cells.length
  | .other _ nulls => nulls.length

/-- The type of the array. -/
def dataType : Column → DataType
  | .utf8 _ _ => .utf8
  | .largeUtf8 _ => .largeUtf8
  | .other debug _ => .other debug

/-- Whether some row is null. -/
def hasNull : Column → Bool
  | .utf8 cells _ => cells.any Option.isNone
  | .largeUtf8 cells => cells.any Option.isNone
  | .other _ nulls => nulls.any id

/-- Whether the array holds text. -/
def isText : Column → Bool
  | .other _ _ => false
  | _ => true

/-- The text of a row of a text array, none at a null. -/
def cellAt (c : Column) (row : ℕ) : Option Text :=
  match c with
  | .utf8 cells _ => cells[row]?.join
  | .largeUtf8 cells => cells[row]?.join
  | .other _ _ => none

/-- Consecutive cells of a column hold no more bytes than the column. -/
theorem cellSize_slice_le (cells : List (Option Text)) (offset n : ℕ) :
    (((cells.drop offset).take n).map cellSize).sum ≤ (cells.map cellSize).sum := by
  have hsplit (l : List (Option Text)) (k : ℕ) :
      (l.map cellSize).sum = ((l.take k).map cellSize).sum + ((l.drop k).map cellSize).sum := by
    rw [← List.sum_append, ← List.map_append, List.take_append_drop]
  rw [hsplit cells offset, hsplit (cells.drop offset) n]
  omega

/-- Consecutive rows of an array. -/
def slice (c : Column) (offset n : ℕ) : Column :=
  match c with
  | .utf8 cells fits =>
    .utf8 ((cells.drop offset).take n) (Nat.le_trans (cellSize_slice_le cells offset n) fits)
  | .largeUtf8 cells => .largeUtf8 ((cells.drop offset).take n)
  | .other debug nulls => .other debug ((nulls.drop offset).take n)

/-- A slice has the rows asked for, as far as there are any. -/
theorem slice_length (c : Column) (offset n : ℕ) :
    (c.slice offset n).length = min n (c.length - offset) := by
  cases c <;> simp [slice, length]

/-- A row of a slice is a row of the column. -/
theorem cellAt_slice (c : Column) {offset n row : ℕ} (hrow : row < n) :
    (c.slice offset n).cellAt row = c.cellAt (offset + row) := by
  cases c <;> simp only [slice, cellAt, List.getElem?_take_of_lt hrow, List.getElem?_drop]

/-- A slice has the type of the column. -/
theorem isText_slice (c : Column) (offset n : ℕ) : (c.slice offset n).isText = c.isText := by
  cases c <;> rfl

end Column

/-- A batch of columns of one length. -/
structure RecordBatch where
  columns : List Column
  rows : ℕ
  length_eq : ∀ c ∈ columns, c.length = rows

/-- The type and nullability of a result column. -/
structure Field where
  dataType : DataType
  nullable : Bool
  deriving DecidableEq

/-- What arrow can object to in a batch. -/
inductive ArrowError where
  | columnCount
  | rowCount
  | nulls
  | columnType
  deriving DecidableEq

/-- The errors an adapter can return. -/
inductive RpcError where
  | valueError (message : Text)
  | runtimeError (cause : ArrowError)
  deriving DecidableEq

/-- The parameters of a call that the adapters read. -/
structure ProcessParams where
  outputSchema : List Field

namespace RecordBatch

/-- Consecutive rows of a batch. -/
def slice (b : RecordBatch) (offset n : ℕ) : RecordBatch where
  columns := b.columns.map (·.slice offset n)
  rows := min n (b.rows - offset)
  length_eq := by
    intro c hc
    obtain ⟨d, hd, rfl⟩ := List.mem_map.mp hc
    rw [Column.slice_length, b.length_eq d hd]

/-- The batch cut into consecutive pieces of the given sizes. -/
def cut (b : RecordBatch) (sizes : List ℕ) : List RecordBatch :=
  (pieces 0 sizes).map fun p => b.slice p.1 p.2

/-- A column of a batch; an index past the end panics. -/
def column (b : RecordBatch) (i : ℕ) : Outcome RpcError Column := getChecked b.columns i

/-- Put columns together under a schema. These are the checks that arrow documents for `try_new`, in
its order; they are assumed of the crate. -/
def tryNew (schema : List Field) (columns : List Column) : Outcome ArrowError RecordBatch :=
  if schema.length ≠ columns.length then .err .columnCount
  else
    match columns.head? with
    | none => .err .rowCount
    | some first =>
      if (columns.zip schema).any fun p => !p.2.nullable && p.1.hasNull then .err .nulls
      else if h : ∀ c ∈ columns, c.length = first.length then
        if (columns.zip schema).any fun p => p.1.dataType ≠ p.2.dataType then .err .columnType
        else .ok ⟨columns, first.length, h⟩
      else .err .rowCount

/-- The cell of an operand, none at a null. -/
def operand (b : RecordBatch) (row i : ℕ) : Option Text := b.columns[i]?.bind (·.cellAt row)

/-- The first columns of a batch hold text. -/
def TextColumns (b : RecordBatch) (n : ℕ) : Prop :=
  ∀ i < n, b.columns[i]?.map Column.isText = some true

instance (b : RecordBatch) (n : ℕ) : Decidable (b.TextColumns n) :=
  inferInstanceAs (Decidable (∀ i < n, b.columns[i]?.map Column.isText = some true))

end RecordBatch

/-- An operand of a slice is an operand of the batch. -/
theorem RecordBatch.operand_slice (b : RecordBatch) {offset n row : ℕ} (hrow : row < n) (i : ℕ) :
    (b.slice offset n).operand row i = b.operand (offset + row) i := by
  rw [operand, slice, List.getElem?_map, operand]
  cases b.columns[i]? with
  | none => rfl
  | some c => exact c.cellAt_slice hrow

/-- A slice has text columns where the batch has. -/
theorem RecordBatch.TextColumns.slice {b : RecordBatch} {k : ℕ} (h : b.TextColumns k)
    (offset n : ℕ) : (b.slice offset n).TextColumns k := by
  intro i hi
  rw [RecordBatch.slice, List.getElem?_map, Option.map_map, ← h i hi]
  congr 1
  funext c
  exact c.isText_slice offset n

/-- The builder of a `Utf8` array. Its capacity and its panic are what arrow documents; they are
assumed of the crate. -/
abbrev StringBuilder := Buffer cellSize i32Max

namespace StringBuilder

/-- Append a text; the builder panics once its bytes outgrow a 32-bit offset. -/
def appendValue (out : StringBuilder) (s : Text) : Outcome RpcError StringBuilder :=
  out.push (some s)

/-- Append a null. -/
def appendNull (out : StringBuilder) : Outcome RpcError StringBuilder := out.push none

/-- The array of the appended cells. -/
def finish (out : StringBuilder) : Column := .utf8 out.items out.fits

end StringBuilder

/-- The text of a cell, or none at a null; a cell of any other type is an error. -/
def textStr (col : Column) (row : ℕ) : Outcome RpcError (Option Text) :=
  match col with
  | .utf8 cells _ => getChecked cells row
  | .largeUtf8 cells => getChecked cells row
  | .other debug nulls => do
    let isNull ← getChecked nulls row
    if isNull then pure none
    else .err (.valueError ("expected a VARCHAR (string) argument, got ".toList ++ debug))

/-- A row of a text column is read as its cell. -/
theorem textStr_eq {c : Column} {row : ℕ} (htext : c.isText = true) (hrow : row < c.length) :
    textStr c row = .ok (c.cellAt row) := by
  cases c with
  | utf8 cells _ =>
    have hget : cells[row]? = some cells[row] := List.getElem?_eq_getElem hrow
    rw [textStr, Column.cellAt, getChecked_of_getElem? hget, hget]
    rfl
  | largeUtf8 cells =>
    have hget : cells[row]? = some cells[row] := List.getElem?_eq_getElem hrow
    rw [textStr, Column.cellAt, getChecked_of_getElem? hget, hget]
    rfl
  | other debug nulls => cases htext

end VgiMask
