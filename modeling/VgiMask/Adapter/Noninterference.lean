import VgiMask.Adapter.ColumnRoundTrip
import VgiMask.Common.TwoRuns

/-!
# What errors tell of secrets

The errors of nested calls go to whoever wrote the query, who may hold neither the key nor the
values. Two runs on tables that agree in their nulls, in the names as they are compared and in
which keys are empty fail with the same error, or both return, with nulls in the same rows. So
neither an error nor its absence tells more of a value than that it is null, or more of a key
than that it is null or empty.
-/

namespace VgiMask

open Common

/-- What the errors of an adapter can depend on in an operand that is not null. -/
inductive Seen where
  | nothing
  | name (compared : Text)
  | key (isEmpty : Bool)
  deriving DecidableEq

/-- Names are seen as they are compared, and of keys only whether they are empty. -/
def Adapter.seen : Adapter → ℕ → Text → Seen
  | .fpe _, 1, s => .name (toAsciiLowercase (trim s))
  | .fpe _, 2, s => .key s.isEmpty
  | .token, 1, s => .key s.isEmpty
  | .redact, 1, s => .name (toAsciiLowercase (trim s))
  | _, _, _ => .nothing

/-- The calls are of one function, and in `n` rows the same is seen of their operands beside the
value, for which a null stands here. -/
structure SeenAlike (n : ℕ) (call call' : Call) : Prop where
  adapter_eq : call.adapter = call'.adapter
  seen_eq : ∀ i < n, ∀ j < call.adapter.arity,
    (call.operand i none j).map (call.adapter.seen j) =
      (call'.operand i none j).map (call.adapter.seen j)

/-- Both cells are null, or neither is. -/
def SameNull (c c' : Option Text) : Prop := c.isNone = c'.isNone

section Engine

variable {C C' : Crypto} {a : Adapter}

/-- A profile name is parsed as it is compared. -/
theorem Format.parse_congr {s t : Text} (h : toAsciiLowercase (trim s) = toAsciiLowercase (trim t)) :
    Format.parse s = Format.parse t := by
  unfold Format.parse
  rw [h]

/-- A mode name is parsed as it is compared. -/
theorem RedactMode.parse_congr {s t : Text}
    (h : toAsciiLowercase (trim s) = toAsciiLowercase (trim t)) :
    RedactMode.parse s = RedactMode.parse t := by
  unfold RedactMode.parse
  rw [h]

/-- Operands of which the same is seen have the same fault. -/
theorem fault_congr {ops ops' : Fin a.arity → Text}
    (h : ∀ j : Fin a.arity, a.seen j (ops j) = a.seen j (ops' j)) : a.fault ops = a.fault ops' := by
  have hempty {s t : Text} (hkey : Seen.key s.isEmpty = Seen.key t.isEmpty) : s = [] ↔ t = [] := by
    rw [← List.isEmpty_iff, ← List.isEmpty_iff, Seen.key.inj hkey]
  cases a with
  | fpe forward =>
    have hname := Format.parse_congr (Seen.name.inj (h 1))
    simp only [Adapter.fault, hname, hempty (h 2)]
  | token => simp only [Adapter.fault, hempty (h 1)]
  | redact =>
    have hname := RedactMode.parse_congr (Seen.name.inj (h 1))
    simp only [Adapter.fault, hname]

/-- Operands without a fault are answered by a text. -/
theorem answer_returns (hacc : Ff1Accepts C Ff1Domain) (hpres : Ff1Preserves C Ff1Domain)
    {ops : Fin a.arity → Text} (hsize : (ops ⟨0, a.arity_pos⟩).length ≤ u32Max)
    (hfault : a.fault ops = none) : ∃ s, a.answer C ops = .ok s := by
  cases a with
  | fpe forward =>
    rcases Format.parse_cases (ops 1) with ⟨f, hf⟩ | hf
    · simp only [Adapter.fault, hf] at hfault
      have hkey : ops 2 ≠ [] := by
        intro hnil
        rw [if_pos hnil] at hfault
        cases hfault
      have hslots := (slots_length_le f (ops 0)).trans hsize
      obtain ⟨out, hout⟩ : ∃ out, fpe C forward (ops 0) f (ops 2) = .ok out :=
        fpe_returns hkey hacc hpres (covers_ff1Domain hslots)
      refine ⟨out, ?_⟩
      rw [Adapter.answer, hf, Outcome.ok_bind, hout]
    · simp only [Adapter.fault, hf] at hfault
      cases hfault
  | token =>
    have hkey : ops 1 ≠ [] := by
      intro hnil
      rw [Adapter.fault, if_pos hnil] at hfault
      cases hfault
    obtain ⟨t, ht, -⟩ := token_eq_ok C (ops 0) hkey
    exact ⟨t, ht⟩
  | redact =>
    rcases RedactMode.parse_cases (ops 1) with ⟨m, hm⟩ | hm
    · refine ⟨redact (ops 0) m, ?_⟩
      rw [Adapter.answer, hm]
      rfl
    · simp only [Adapter.fault, hm] at hfault
      cases hfault

/-- Operands of which the same is seen are answered alike, whatever the values and the keys. -/
theorem answer_alike (hacc : Ff1Accepts C Ff1Domain) (hpres : Ff1Preserves C Ff1Domain)
    (hacc' : Ff1Accepts C' Ff1Domain) (hpres' : Ff1Preserves C' Ff1Domain) {ops ops' : Fin a.arity → Text}
    (hsize : (ops ⟨0, a.arity_pos⟩).length ≤ u32Max) (hsize' : (ops' ⟨0, a.arity_pos⟩).length ≤ u32Max)
    (h : ∀ j : Fin a.arity, a.seen j (ops j) = a.seen j (ops' j)) :
    Outcome.Alike (fun _ _ => True) (a.answer C ops) (a.answer C' ops') := by
  rcases Adapter.answer_cases C a ops with ⟨e, he, hanswer, -⟩ | ⟨hnone, -⟩
  · have he' := (fault_congr h).symm.trans he
    rcases Adapter.answer_cases C' a ops' with ⟨e', hfault, hanswer', -⟩ | ⟨hnone, -⟩
    · obtain rfl := Option.some.inj (he'.symm.trans hfault)
      rw [hanswer, hanswer']
      exact .err e
    · rw [he'] at hnone
      cases hnone
  · obtain ⟨s, hs⟩ := answer_returns hacc hpres hsize hnone
    obtain ⟨s', hs'⟩ := answer_returns hacc' hpres' hsize' ((fault_congr h).symm.trans hnone)
    rw [hs, hs']
    exact .ok trivial

/-- Rows of which the same is seen have cells that are alike. -/
theorem cellOf_alike (hacc : Ff1Accepts C Ff1Domain) (hpres : Ff1Preserves C Ff1Domain)
    (hacc' : Ff1Accepts C' Ff1Domain) (hpres' : Ff1Preserves C' Ff1Domain)
    {cells cells' : Fin a.arity → Option Text}
    (hsize : ∀ v, cells ⟨0, a.arity_pos⟩ = some v → v.length ≤ u32Max)
    (hsize' : ∀ v, cells' ⟨0, a.arity_pos⟩ = some v → v.length ≤ u32Max)
    (h : ∀ j : Fin a.arity, (cells j).map (a.seen j) = (cells' j).map (a.seen j)) :
    Outcome.Alike SameNull (cellOf (a.answer C) cells) (cellOf (a.answer C') cells') := by
  have hnull (j : Fin a.arity) : cells j = none ↔ cells' j = none := by
    rw [← Option.map_eq_none_iff, h j, Option.map_eq_none_iff]
  cases hops : allSome cells with
  | none =>
    obtain ⟨j, hj⟩ := (allSome_eq_none_iff cells).mp hops
    rw [cellOf_of_none ⟨j, hj⟩, cellOf_of_none ⟨j, (hnull j).mp hj⟩]
    exact .ok rfl
  | some ops =>
    have hcells := (allSome_eq_some_iff cells ops).mp hops
    cases hops' : allSome cells' with
    | none =>
      obtain ⟨j, hj⟩ := (allSome_eq_none_iff cells').mp hops'
      have hcell := hcells j
      rw [(hnull j).mpr hj] at hcell
      cases hcell
    | some ops' =>
      have hcells' := (allSome_eq_some_iff cells' ops').mp hops'
      have hseen (j : Fin a.arity) : a.seen j (ops j) = a.seen j (ops' j) := by
        have hj := h j
        rw [hcells j, hcells' j] at hj
        exact Option.some.inj hj
      rw [cellOf_of_some hcells, cellOf_of_some hcells']
      have hanswer := answer_alike hacc hpres hacc' hpres' (hsize _ (hcells _)) (hsize' _ (hcells' _)) hseen
      exact (hanswer.mapErr valueError).map fun _ _ _ => rfl

/-- Nothing is seen of a value. -/
theorem seen_zero (a : Adapter) (s : Text) : a.seen 0 s = .nothing := by cases a <;> rfl

end Engine

section Calls

variable {C C' : Crypto} {call call' : Call} {n : ℕ}

/-- The columns fit and have their nulls in the same rows. -/
def ColumnsAlike (n : ℕ) (column column' : List (Option Text)) : Prop :=
  FitsColumn n column ∧ FitsColumn n column' ∧ List.Forall₂ SameNull column column'

/-- A row of calls of which the same is seen has cells that are alike. -/
theorem callCell_alike (hacc : Ff1Accepts C Ff1Domain) (hpres : Ff1Preserves C Ff1Domain)
    (hacc' : Ff1Accepts C' Ff1Domain) (hpres' : Ff1Preserves C' Ff1Domain)
    (hcalls : SeenAlike n call call') {i : ℕ} (hi : i < n) {v v' : Option Text} (hnull : SameNull v v')
    (hsize : cellSize v ≤ u32Max) (hsize' : cellSize v' ≤ u32Max) :
    Outcome.Alike SameNull (call.cell C i v) (call'.cell C' i v') := by
  obtain ⟨a, operands⟩ := call
  obtain ⟨a', operands'⟩ := call'
  obtain ⟨rfl, hseen⟩ := hcalls
  apply cellOf_alike hacc hpres hacc' hpres'
  · rintro t rfl
    exact (length_le_utf8Len t).trans hsize
  · rintro t rfl
    exact (length_le_utf8Len t).trans hsize'
  · rintro ⟨j, hj⟩
    cases j with
    | zero =>
      have hzero : a.seen 0 = fun _ => .nothing := funext (seen_zero a)
      change v.map (a.seen 0) = v'.map (a.seen 0)
      rw [hzero]
      cases v <;> cases v' <;> first | rfl | cases hnull
    | succ j => exact hseen i hi (j + 1) hj

/-- Calls of which the same is seen, on columns that are alike, run alike. -/
theorem run_alike (hacc : Ff1Accepts C Ff1Domain) (hpres : Ff1Preserves C Numerals)
    (hacc' : Ff1Accepts C' Ff1Domain) (hpres' : Ff1Preserves C' Numerals) (hfits : call.Fits n)
    (hfits' : call'.Fits n) (htoken : call.adapter = .token → 32 * n ≤ i32Max)
    (hcalls : SeenAlike n call call') {column column' : List (Option Text)}
    (hcolumns : ColumnsAlike n column column') :
    Outcome.Alike (ColumnsAlike n) (call.run C column) (call'.run C' column') := by
  obtain ⟨hcolumn, hcolumn', hnull⟩ := hcolumns
  have htoken' : call'.adapter = .token → 32 * n ≤ i32Max := hcalls.adapter_eq ▸ htoken
  have hsize {column : List (Option Text)} (h : FitsColumn n column) :
      ∀ v ∈ column, cellSize v ≤ u32Max := fun v hv =>
    ((cellSize_le_columnSize hv).trans h.2).trans (by decide)
  have hrows : Outcome.Alike (List.Forall₂ SameNull) (call.run C column) (call'.run C' column') := by
    rw [run_eq_callRows hpres htoken hfits hcolumn, run_eq_callRows hpres' htoken' hfits' hcolumn']
    refine alike_callRows (hcolumn.1.trans hcolumn'.1.symm) fun i v v' hv hv' => ?_
    obtain ⟨hi, rfl⟩ := List.getElem?_eq_some_iff.mp hv
    obtain ⟨hi', rfl⟩ := List.getElem?_eq_some_iff.mp hv'
    exact callCell_alike hacc hpres.ff1Domain hacc' hpres'.ff1Domain hcalls (hcolumn.1 ▸ hi)
      (hnull.get hi hi') (hsize hcolumn _ (List.getElem_mem hi)) (hsize hcolumn' _ (List.getElem_mem hi'))
  exact hrows.and_returned (fun _ => fitsColumn_of_run hpres htoken hfits hcolumn)
    fun _ => fitsColumn_of_run hpres' htoken' hfits' hcolumn'

end Calls

/-- Nested calls fail with the same error, or both return with nulls in the same rows, whatever
the values and the keys are, and under whatever ciphers, as long as the tables have the same
nulls, the same names as they are compared, and the same empty keys. -/
theorem errors_tell_no_secrets (C C' : Crypto) (hacc : Ff1Accepts C Ff1Domain)
    (hpres : Ff1Preserves C Numerals) (hacc' : Ff1Accepts C' Ff1Domain)
    (hpres' : Ff1Preserves C' Numerals) (n : ℕ) (calls calls' : List Call)
    (hfits : ∀ call ∈ calls, call.Fits n) (hfits' : ∀ call ∈ calls', call.Fits n)
    (htokens : TokensFit calls n) (hcalls : List.Forall₂ (SeenAlike n) calls calls')
    (column column' : List (Option Text)) (hcolumn : FitsColumn n column)
    (hcolumn' : FitsColumn n column') (hnulls : column.map Option.isNone = column'.map Option.isNone) :
    (∀ re, runCalls C calls column = .err re ↔ runCalls C' calls' column' = .err re) ∧
      ∀ out, runCalls C calls column = .ok out →
        ∃ out', runCalls C' calls' column' = .ok out' ∧ out.map Option.isNone = out'.map Option.isNone := by
  have hmap (l l' : List (Option Text)) :
      List.Forall₂ SameNull l l' ↔ l.map Option.isNone = l'.map Option.isNone := by
    rw [← List.forall₂_eq_eq_eq, List.forall₂_map_left_iff, List.forall₂_map_right_iff]
    rfl
  have hrun : Outcome.Alike (ColumnsAlike n) (runCalls C calls column) (runCalls C' calls' column') := by
    refine alike_runSteps ?_ ⟨hcolumn, hcolumn', (hmap _ _).mpr hnulls⟩
    rw [List.forall₂_iff_get] at hcalls ⊢
    refine ⟨hcalls.1, fun i hi hi' col col' hcols => ?_⟩
    have hmem := calls.get_mem ⟨i, hi⟩
    exact run_alike hacc hpres hacc' hpres' (hfits _ hmem) (hfits' _ (calls'.get_mem ⟨i, hi'⟩))
      (htokens _ hmem) (hcalls.2 i hi hi') hcols
  refine ⟨hrun.eq_err_iff, fun out hout => ?_⟩
  rw [hout] at hrun
  obtain ⟨out', hout', -, -, hnull⟩ := hrun.exists_ok
  exact ⟨out', hout', (hmap _ _).mp hnull⟩

/-- Encryption of a card number and an identifier, then redaction; the second mode is unknown. -/
def secretCalls : List Call :=
  [⟨.fpe true, [[some "card".toList, some "digits".toList], [some "k".toList, some "k".toList]]⟩,
    ⟨.redact, [[some "last4".toList, some "Half ".toList]]⟩]

/-- The same query by a stranger, with other keys and other spellings of the names. -/
def strangerCalls : List Call :=
  [⟨.fpe true, [[some "Card".toList, some " digits".toList], [some "guess".toList, some "x".toList]]⟩,
    ⟨.redact, [[some "LAST4".toList, some "half".toList]]⟩]

/-- The stranger's error is the one of the query on the secrets. -/
theorem errors_tell_no_secrets_recorded :
    runCalls recordedCrypto secretCalls [some "4012888888881881".toList, some "12-34".toList] =
        .err (valueError (.unknownMode "half".toList)) ∧
      runCalls recordedCrypto strangerCalls [some "nothing".toList, some []] =
        .err (valueError (.unknownMode "half".toList)) := by
  have hrun : runCalls recordedCrypto secretCalls
      [some "4012888888881881".toList, some "12-34".toList] =
        .err (valueError (.unknownMode "half".toList)) := by
    decide +kernel
  have hfits : ∀ call ∈ secretCalls, call.Fits 2 :=
    List.forall_mem_cons.mpr ⟨⟨⟨by decide, by decide⟩, by decide⟩,
      List.forall_mem_singleton.mpr ⟨⟨by decide, by decide⟩, by decide⟩⟩
  have hfits' : ∀ call ∈ strangerCalls, call.Fits 2 :=
    List.forall_mem_cons.mpr ⟨⟨⟨by decide, by decide⟩, by decide⟩,
      List.forall_mem_singleton.mpr ⟨⟨by decide, by decide⟩, by decide⟩⟩
  have htokens : TokensFit secretCalls 2 := by
    rw [TokensFit]
    decide
  have hcalls : List.Forall₂ (SeenAlike 2) secretCalls strangerCalls :=
    .cons ⟨rfl, by decide⟩ (.cons ⟨rfl, by decide⟩ .nil)
  have hpres := recordedCrypto_preserves Numerals
  exact ⟨hrun, ((errors_tell_no_secrets recordedCrypto recordedCrypto recordedCrypto_accepts hpres
    recordedCrypto_accepts hpres 2 secretCalls strangerCalls hfits hfits' htokens hcalls
    _ _ ⟨rfl, by decide⟩ ⟨rfl, by decide⟩ (by decide)).1 _).mp hrun⟩

end VgiMask
