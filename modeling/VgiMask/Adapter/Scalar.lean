import VgiMask.Adapter.Arrow
import VgiMask.Engine.Errors
import VgiMask.Engine.Redact
import VgiMask.Engine.Token

/-!
# The scalar functions

Each adapter loops over the rows of a batch: it reads the operands, returns a null when one
of them is null, and otherwise parses the name, calls the engine and appends the result. An
unknown name, an empty key or a failure of FF1 ends the loop with an error.
-/

namespace VgiMask

open Common

/-- An engine error is reported by its text. -/
def valueError (e : MaskError) : RpcError := .valueError e.display

/-- The result schema announced when a function is bound: one nullable `Utf8` column. -/
def onBind : List Field := [⟨.utf8, true⟩]

/-- The built array as a batch of the announced schema. -/
def finishBatch (params : ProcessParams) (out : StringBuilder) : Outcome RpcError RecordBatch :=
  (RecordBatch.tryNew params.outputSchema [out.finish]).mapErr .runtimeError

/-- The driver of `mask_fpe` (forward) and `mask_unfpe` (inverse). -/
def runFpe (C : Crypto) (params : ProcessParams) (batch : RecordBatch) (forward : Bool) :
    Outcome RpcError RecordBatch := do
  let value ← batch.column 0
  let fmt ← batch.column 1
  let key ← batch.column 2
  let out ← (List.range batch.rows).foldlM (fun (out : StringBuilder) i => do
    let v ← textStr value i
    let f ← textStr fmt i
    let k ← textStr key i
    match v, f, k with
    | some v, some fmtName, some k =>
      let format ← (Format.parse fmtName).mapErr valueError
      let s ← (if forward then fpeEncrypt C v format k else fpeDecrypt C v format k).mapErr valueError
      out.appendValue s
    | _, _, _ => out.appendNull) Buffer.empty
  finishBatch params out

/-- The adapter of `mask_token`. -/
def maskTokenProcess (C : Crypto) (params : ProcessParams) (batch : RecordBatch) :
    Outcome RpcError RecordBatch := do
  let value ← batch.column 0
  let key ← batch.column 1
  let out ← (List.range batch.rows).foldlM (fun (out : StringBuilder) i => do
    let v ← textStr value i
    let k ← textStr key i
    match v, k with
    | some v, some k =>
      let t ← (token C v k).mapErr valueError
      out.appendValue t
    | _, _ => out.appendNull) Buffer.empty
  finishBatch params out

/-- The adapter of `mask_redact`. -/
def maskRedactProcess (params : ProcessParams) (batch : RecordBatch) :
    Outcome RpcError RecordBatch := do
  let value ← batch.column 0
  let mode ← batch.column 1
  let out ← (List.range batch.rows).foldlM (fun (out : StringBuilder) i => do
    let v ← textStr value i
    let m ← textStr mode i
    match v, m with
    | some v, some m =>
      let mode ← (RedactMode.parse m).mapErr valueError
      out.appendValue (redact v mode)
    | _, _ => out.appendNull) Buffer.empty
  finishBatch params out

/-- The adapters; the two directions share one driver. -/
inductive Adapter where
  | fpe (forward : Bool)
  | token
  | redact
  deriving DecidableEq

namespace Adapter

/-- The number of operand columns. -/
abbrev arity : Adapter → ℕ
  | .fpe _ => 3
  | .token => 2
  | .redact => 2

/-- The adapter's treatment of a batch. -/
def process (C : Crypto) (a : Adapter) (params : ProcessParams) (batch : RecordBatch) :
    Outcome RpcError RecordBatch :=
  match a with
  | .fpe forward => runFpe C params batch forward
  | .token => maskTokenProcess C params batch
  | .redact => maskRedactProcess params batch

/-- The engine's answer to the operands of a row. -/
def answer (C : Crypto) : (a : Adapter) → (Fin a.arity → Text) → Outcome MaskError Text
  | .fpe forward, ops => do
    let format ← Format.parse (ops 1)
    VgiMask.fpe C forward (ops 0) format (ops 2)
  | .token, ops => VgiMask.token C (ops 0) (ops 1)
  | .redact, ops => do
    let mode ← RedactMode.parse (ops 1)
    pure (VgiMask.redact (ops 0) mode)

/-- What is wrong with the operands of a row: an unknown name before an empty key. -/
def fault : (a : Adapter) → (Fin a.arity → Text) → Option MaskError
  | .fpe _, ops =>
    match Format.parse (ops 1) with
    | .err e => some e
    | _ => if ops 2 = [] then some .emptyKey else none
  | .token, ops => if ops 1 = [] then some .emptyKey else none
  | .redact, ops =>
    match RedactMode.parse (ops 1) with
    | .err e => some e
    | _ => none

/-- The operand cells of a row. -/
def row (a : Adapter) (batch : RecordBatch) (i : ℕ) : Fin a.arity → Option Text :=
  fun j => batch.operand i j

end Adapter

/-- The operands of a row without nulls. -/
def allSome {n : ℕ} (cells : Fin n → Option Text) : Option (Fin n → Text) :=
  if h : ∀ j, (cells j).isSome then some fun j => (cells j).get (h j) else none

/-- The result cell for the operand cells of a row: a null where one of them is null. -/
def cellOf {n : ℕ} (answer : (Fin n → Text) → Outcome MaskError Text) (cells : Fin n → Option Text) :
    Outcome RpcError (Option Text) :=
  match allSome cells with
  | some ops => some <$> (answer ops).mapErr valueError
  | none => .ok none

/-- A row has all its operands exactly when they are its cells. -/
theorem allSome_eq_some_iff {n : ℕ} (cells : Fin n → Option Text) (ops : Fin n → Text) :
    allSome cells = some ops ↔ ∀ j, cells j = some (ops j) := by
  unfold allSome
  split
  · rename_i h
    rw [Option.some.injEq]
    constructor
    · intro hops j
      rw [← hops]
      exact (Option.some_get (h j)).symm
    · intro hops
      funext j
      exact Option.get_of_eq_some (h j) (hops j)
  · rename_i h
    constructor
    · nofun
    · intro hops
      exact absurd (fun j => by rw [hops j]; rfl) h

/-- A row lacks an operand exactly when a cell is null. -/
theorem allSome_eq_none_iff {n : ℕ} (cells : Fin n → Option Text) :
    allSome cells = none ↔ ∃ j, cells j = none := by
  unfold allSome
  split
  · rename_i h
    constructor
    · nofun
    · intro ⟨j, hj⟩
      have hsome := h j
      rw [hj] at hsome
      cases hsome
  · rename_i h
    rw [not_forall] at h
    obtain ⟨j, hj⟩ := h
    exact ⟨fun _ => ⟨j, Option.not_isSome_iff_eq_none.mp hj⟩, fun _ => rfl⟩

namespace Adapter

variable {C : Crypto} {a : Adapter}

/-- The result cell of a row. -/
def cell (C : Crypto) (a : Adapter) (batch : RecordBatch) (i : ℕ) : Outcome RpcError (Option Text) :=
  cellOf (a.answer C) (a.row batch i)

/-- Faulty operands are answered by their fault, which is not of FF1; all others get no
error except from FF1. -/
theorem answer_cases (C : Crypto) (a : Adapter) (ops : Fin a.arity → Text) :
    (∃ e, a.fault ops = some e ∧ a.answer C ops = .err e ∧ ¬ e.IsFpe) ∨
      a.fault ops = none ∧ (a.answer C ops).ErrsIn MaskError.IsFpe := by
  cases a with
  | fpe forward =>
    simp only [fault, answer]
    rcases Format.parse_cases (ops 1) with ⟨f, hf⟩ | hf
    · rw [hf, Outcome.ok_bind]
      by_cases hkey : ops 2 = []
      · refine .inl ⟨.emptyKey, if_pos hkey, ?_, MaskError.not_isFpe_emptyKey⟩
        rw [hkey, fpe_nil_key]
      · exact .inr ⟨if_neg hkey, fpe_errsIn C (ops 0) f hkey forward⟩
    · rw [hf]
      exact .inl ⟨_, rfl, rfl, MaskError.not_isFpe_unknownFormat _⟩
  | token =>
    simp only [fault, answer]
    by_cases hkey : ops 1 = []
    · refine .inl ⟨.emptyKey, if_pos hkey, ?_, MaskError.not_isFpe_emptyKey⟩
      rw [hkey, token_nil_key]
    · obtain ⟨s, hs, -⟩ := token_eq_ok C (ops 0) hkey
      rw [hs]
      exact .inr ⟨if_neg hkey, Outcome.errsIn_ok s⟩
  | redact =>
    simp only [fault, answer]
    rcases RedactMode.parse_cases (ops 1) with ⟨m, hm⟩ | hm
    · rw [hm]
      exact .inr ⟨rfl, Outcome.errsIn_ok _⟩
    · rw [hm]
      exact .inl ⟨_, rfl, rfl, MaskError.not_isFpe_unknownMode _⟩

/-- Where FF1 answers, the engine answers any operands. -/
theorem answer_answers (hans : Ff1Answers C Numerals) (hpres : Ff1Preserves C Numerals)
    (ops : Fin a.arity → Text) : (a.answer C ops).Answers := by
  cases a with
  | fpe forward =>
    exact Outcome.Answers.bind (Format.parse_answers (ops 1)) fun f =>
      fpe_answers hans hpres (covers_numerals f _)
  | token => exact token_answers C (ops 0) (ops 1)
  | redact =>
    exact Outcome.Answers.bind (RedactMode.parse_answers (ops 1)) fun m => ⟨nofun, nofun⟩

end Adapter

end VgiMask
