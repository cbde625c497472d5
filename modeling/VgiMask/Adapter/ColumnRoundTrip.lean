import VgiMask.Adapter.Pipelines
import VgiMask.Engine.RoundTrip
import Mathlib.Data.Fin.VecNotation

/-!
# Masking a column and unmasking it

Masking a column under columns of profiles and keys and unmasking the result under the same
columns is one pass that settles the values: nulls are kept or spread, the fault of the first
faulty row is reported, and the ciphertexts have disappeared. No length has to be assumed of
values in columns that fit, and no result outgrows the builder.
-/

namespace VgiMask

open Common

/-- One direction of the reversible functions, called with columns of profiles and keys. -/
def fpeCall (forward : Bool) (formats keys : List (Option Text)) : Call :=
  ⟨.fpe forward, [formats, keys]⟩

/-- What is left of a round trip: the value with its check digit settled, the fault of faulty
operands, and a null where an operand is null. -/
def settledRow (formats keys : List (Option Text)) (i : ℕ) (v : Option Text) :
    Outcome RpcError (Option Text) :=
  match v, formats[i]?.join, keys[i]?.join with
  | some v, some name, some k => do
    let format ← (Format.parse name).mapErr valueError
    if k.isEmpty then .err (valueError .emptyKey) else pure (some (format.settled v))
  | _, _, _ => pure none

/-- A row's value is null, or it has a known profile, a key and, as a card number, the right
check digit. -/
def ComesBack (values formats keys : List (Option Text)) (i : ℕ) : Prop :=
  values[i]? = some none ∨ ∃ v name f k, values[i]? = some (some v) ∧ formats[i]? = some (some name) ∧
    keys[i]? = some (some k) ∧ Format.parse name = .ok f ∧ k ≠ [] ∧
    (f = .card → (v.filter Char.isDigit).length = 16 → isLuhnValid v = true)

/-- A text has no more characters than bytes. -/
theorem length_le_utf8Len (s : Text) : s.length ≤ utf8Len s := by
  induction s with
  | nil => exact Nat.zero_le _
  | cons c s ih =>
    have hc := c.utf8Size_pos
    rw [List.length_cons, utf8Len_cons]
    omega

/-- A cell is no larger than its column. -/
theorem cellSize_le_columnSize {column : List (Option Text)} {cell : Option Text}
    (h : cell ∈ column) : cellSize cell ≤ columnSize column :=
  List.le_sum_of_mem (List.mem_map_of_mem h)

section Rows

variable {n : ℕ} {answer : (Fin n → Text) → Outcome MaskError Text} {cells : Fin n → Option Text}

/-- A row without nulls has the answer to its operands. -/
theorem cellOf_of_some {ops : Fin n → Text} (h : ∀ j, cells j = some (ops j)) :
    cellOf answer cells = some <$> (answer ops).mapErr valueError := by
  rw [cellOf, (allSome_eq_some_iff _ _).mpr h]

/-- A row with a null is null. -/
theorem cellOf_of_none (h : ∃ j, cells j = none) : cellOf answer cells = .ok none := by
  rw [cellOf, (allSome_eq_none_iff _).mpr h]

end Rows

section RoundTrip

variable {C : Crypto} {forward : Bool} {formats keys : List (Option Text)} {i : ℕ}

/-- The row of a null operand settles to a null. -/
theorem settledRow_of_none {v : Option Text}
    (h : ∃ j : Fin 3, (fpeCall true formats keys).operand i v j = none) :
    settledRow formats keys i v = .ok none := by
  obtain ⟨j, hj⟩ := h
  unfold settledRow
  match j, hj with
  | 0, hj =>
    obtain rfl : v = none := hj
    rfl
  | 1, hj =>
    have hname : formats[i]?.join = none := hj
    rw [hname]
    cases v <;> rfl
  | 2, hj =>
    have hk : keys[i]?.join = none := hj
    rw [hk]
    cases v <;> cases formats[i]?.join <;> rfl

/-- The row of all operands settles its value under the profile, unless the key is empty. -/
theorem settledRow_of_some {v name k : Text} (hname : formats[i]?.join = some name)
    (hk : keys[i]?.join = some k) :
    settledRow formats keys i (some v) = (Format.parse name).mapErr valueError >>= fun f =>
      if k.isEmpty then .err (valueError .emptyKey) else pure (some (f.settled v)) := by
  unfold settledRow
  rw [hname, hk]

/-- A row of all operands has the answer of the engine to them. -/
theorem fpeCall_cell_of_some {v name k : Text} (hname : formats[i]?.join = some name)
    (hk : keys[i]?.join = some k) :
    (fpeCall forward formats keys).cell C i (some v) =
      some <$> (Format.parse name >>= fun f => fpe C forward v f k).mapErr valueError := by
  have hcell {ops : Fin 3 → Text}
      (h : ∀ j : Fin 3, (fpeCall forward formats keys).operand i (some v) j = some (ops j)) :
      (fpeCall forward formats keys).cell C i (some v) = some <$> (Format.parse (ops 1) >>= fun f =>
        fpe C forward (ops 0) f (ops 2)).mapErr valueError := cellOf_of_some h
  have hops : ∀ j : Fin 3, (fpeCall forward formats keys).operand i (some v) j =
      some ((![v, name, k] : Fin 3 → Text) j) := by
    intro j
    match j with
    | 0 => rfl
    | 1 => exact hname
    | 2 => exact hk
  rw [hcell hops]
  rfl

/-- A row fails as its settled row does, or comes back settled. -/
theorem fpeCall_roundTrip (hacc : Ff1Accepts C Ff1Domain) (hpres : Ff1Preserves C Ff1Domain)
    (hinv : Ff1Inverse C Ff1Domain) {v : Option Text} (hlen : cellSize v ≤ u32Max) :
    (∃ e, (fpeCall forward formats keys).cell C i v = .err e ∧ settledRow formats keys i v = .err e) ∨
      ∃ d d', (fpeCall forward formats keys).cell C i v = .ok d ∧
        (fpeCall (!forward) formats keys).cell C i d = .ok d' ∧
        settledRow formats keys i v = .ok d' := by
  cases hrow : allSome fun j : Fin 3 => (fpeCall true formats keys).operand i v j with
  | none =>
    have hnull := (allSome_eq_none_iff _).mp hrow
    exact .inr ⟨none, none, cellOf_of_none hnull, cellOf_of_none ⟨⟨0, Nat.succ_pos 2⟩, rfl⟩,
      settledRow_of_none hnull⟩
  | some ops =>
    have hops := (allSome_eq_some_iff _ _).mp hrow
    obtain rfl : v = some (ops 0) := hops 0
    rw [fpeCall_cell_of_some (hops 1) (hops 2), settledRow_of_some (hops 1) (hops 2)]
    rcases Format.parse_cases (ops 1) with ⟨f, hf⟩ | hf
    · rw [hf, Outcome.ok_bind, Outcome.mapErr_ok, Outcome.ok_bind]
      by_cases hkey : ops 2 = []
      · rw [hkey, fpe_nil_key]
        exact .inl ⟨_, rfl, rfl⟩
      · have hslots : (f.slots (ops 0)).length ≤ u32Max :=
          (slots_length_le f _).trans ((length_le_utf8Len _).trans hlen)
        have hcov : f.Covers Ff1Domain (f.slots (ops 0)).length := covers_ff1Domain hslots
        obtain ⟨out, hout⟩ : ∃ out, fpe C forward (ops 0) f (ops 2) = .ok out :=
          fpe_returns hkey hacc hpres hcov
        have hback := fpe_inverse hkey hpres hinv hcov hout
        refine .inr ⟨some out, some (f.settled (ops 0)), ?_, ?_, ?_⟩
        · rw [hout]
          rfl
        · rw [fpeCall_cell_of_some (hops 1) (hops 2), hf, Outcome.ok_bind, hback]
          rfl
        · rw [if_neg (by simpa using hkey)]
          rfl
    · rw [hf]
      exact .inl ⟨_, rfl, rfl⟩

/-- A row is its own settled row exactly when it comes back. -/
theorem settledRow_eq_ok_iff {values : List (Option Text)} {v : Option Text}
    (hv : values[i]? = some v) :
    settledRow formats keys i v = .ok v ↔ ComesBack values formats keys i := by
  cases v with
  | none => exact iff_of_true (settledRow_of_none ⟨0, rfl⟩) (.inl hv)
  | some t =>
    constructor
    · intro h
      cases hrow : allSome fun j : Fin 3 => (fpeCall true formats keys).operand i (some t) j with
      | none =>
        rw [settledRow_of_none ((allSome_eq_none_iff _).mp hrow)] at h
        cases h
      | some ops =>
        have hops := (allSome_eq_some_iff _ _).mp hrow
        rw [settledRow_of_some (hops 1) (hops 2)] at h
        obtain ⟨f, hf, hsettled⟩ := (Outcome.bind_eq_ok_iff _ _ _).mp h
        rw [Outcome.mapErr_eq_ok_iff] at hf
        split at hsettled
        · cases hsettled
        · rename_i hkey
          have hluhn := (settled_eq_self_iff_luhn f t).mp (Option.some.inj (Outcome.ok.inj hsettled))
          exact .inr ⟨t, ops 1, f, ops 2, hv, Option.join_eq_some_iff.mp (hops 1),
            Option.join_eq_some_iff.mp (hops 2), hf, by simpa using hkey, hluhn⟩
    · rintro (hnull | ⟨s, name, f, k, hs, hname, hk, hf, hkey, hluhn⟩)
      · rw [hv] at hnull
        cases hnull
      · obtain rfl : t = s := Option.some.inj (Option.some.inj (hv.symm.trans hs))
        rw [settledRow_of_some (Option.join_eq_some_iff.mpr hname) (Option.join_eq_some_iff.mpr hk),
          hf, Outcome.mapErr_ok, Outcome.ok_bind, if_neg (by simpa using hkey),
          (settled_eq_self_iff_luhn f t).mpr hluhn]
        rfl

/-- Calling the rows in one direction and then in the other settles them. -/
theorem callRows_roundTrip (hacc : Ff1Accepts C Ff1Domain) (hpres : Ff1Preserves C Ff1Domain)
    (hinv : Ff1Inverse C Ff1Domain) {values : List (Option Text)}
    (hsize : ∀ v ∈ values, cellSize v ≤ u32Max) :
    (callRows ((fpeCall forward formats keys).cell C) values >>=
        callRows ((fpeCall (!forward) formats keys).cell C)) = callRows (settledRow formats keys) values := by
  calc
    _ = callRows (fun i v => (fpeCall forward formats keys).cell C i v >>=
        (fpeCall (!forward) formats keys).cell C i) values := by
      apply callRows_bind
      intro i v d hv hd
      have hlen := hsize v (List.mem_of_getElem? hv)
      rcases fpeCall_roundTrip hacc hpres hinv hlen with ⟨e, he, -⟩ | ⟨d₁, d', hd₁, hd', -⟩
      · rw [hd] at he
        cases he
      · rw [hd, Outcome.ok.injEq] at hd₁
        exact ⟨d', hd₁ ▸ hd'⟩
    _ = callRows (settledRow formats keys) values := by
      apply callRows_congr
      intro i v hv
      have hlen := hsize v (List.mem_of_getElem? hv)
      rcases fpeCall_roundTrip hacc hpres hinv hlen with ⟨e, he, hse⟩ | ⟨d, d', hd, hd', hsd⟩
      · rw [he, hse]
        rfl
      · rw [hd, Outcome.ok_bind, hd', hsd]

end RoundTrip

section Calls

variable {C : Crypto} {formats keys column : List (Option Text)} {n : ℕ}

/-- The call fits columns of profiles and keys that fit. -/
theorem fpeCall_fits (hoperands : Tabular [formats, keys] n) (forward : Bool) :
    (fpeCall forward formats keys).Fits n :=
  ⟨hoperands, Nat.le_refl 3⟩

/-- Neither direction writes tokens. -/
theorem fpeCall_tokensFit (formats keys : List (Option Text)) (forward : Bool) :
    (fpeCall forward formats keys).adapter = .token → 32 * n ≤ i32Max := by
  intro h
  cases h

/-- On columns that fit, the rows are called in order. -/
theorem runScalar_fpe (hpres : Ff1Preserves C Numerals) (hoperands : Tabular [formats, keys] n)
    (hcolumn : FitsColumn n column) (forward : Bool) :
    runScalar C (.fpe forward) [column, formats, keys] =
      callRows ((fpeCall forward formats keys).cell C) column :=
  run_eq_callRows hpres (fpeCall_tokensFit formats keys forward) (fpeCall_fits hoperands forward) hcolumn

/-- What the rows return fits. -/
theorem fitsColumn_of_callRows (hpres : Ff1Preserves C Numerals)
    (hoperands : Tabular [formats, keys] n) (hcolumn : FitsColumn n column) {forward : Bool}
    {out : List (Option Text)} (h : callRows ((fpeCall forward formats keys).cell C) column = .ok out) :
    FitsColumn n out := by
  rw [← runScalar_fpe hpres hoperands hcolumn] at h
  exact fitsColumn_of_run hpres (fpeCall_tokensFit formats keys forward) (fpeCall_fits hoperands forward)
    hcolumn h

end Calls

/-- Masking a column and unmasking it, in either order of the directions, is one pass that
settles the values; the column itself comes back exactly when every row that is not null has a
known profile, a key and no wrong check digit. -/
theorem column_roundTrip (C : Crypto) (hacc : Ff1Accepts C Ff1Domain)
    (hpres : Ff1Preserves C Numerals) (hinv : Ff1Inverse C Ff1Domain) (forward : Bool) (n : ℕ)
    (values formats keys : List (Option Text)) (htable : Tabular [values, formats, keys] n) :
    (runScalar C (.fpe forward) [values, formats, keys] >>= fun masked =>
        runScalar C (.fpe (!forward)) [masked, formats, keys]) =
      callRows (settledRow formats keys) values ∧
    ((runScalar C (.fpe forward) [values, formats, keys] >>= fun masked =>
        runScalar C (.fpe (!forward)) [masked, formats, keys]) = .ok values ↔
      ∀ i < n, ComesBack values formats keys i) := by
  have hpres' := hpres.ff1Domain
  obtain ⟨hvalues, hlengths⟩ := List.forall_mem_cons.mp htable.length_eq
  obtain ⟨hsize, hsizes⟩ := List.forall_mem_cons.mp htable.fits
  have hoperands : Tabular [formats, keys] n := ⟨hlengths, hsizes⟩
  have hlen : ∀ v ∈ values, cellSize v ≤ u32Max := fun v hv =>
    ((cellSize_le_columnSize hv).trans hsize).trans (by decide)
  have hpass : (runScalar C (.fpe forward) [values, formats, keys] >>= fun masked =>
      runScalar C (.fpe (!forward)) [masked, formats, keys]) =
        callRows (settledRow formats keys) values := by
    rw [← callRows_roundTrip hacc hpres' hinv hlen, runScalar_fpe hpres hoperands ⟨hvalues, hsize⟩]
    cases hmasked : callRows ((fpeCall forward formats keys).cell C) values with
    | ok masked =>
      have hfits := fitsColumn_of_callRows hpres hoperands ⟨hvalues, hsize⟩ hmasked
      exact runScalar_fpe hpres hoperands hfits (!forward)
    | _ => rfl
  refine ⟨hpass, ?_⟩
  rw [hpass, callRows_eq_ok_iff, and_iff_right rfl, ← hvalues]
  constructor
  · intro h i hi
    have hv := List.getElem?_eq_getElem hi
    obtain ⟨c, hc, hrow⟩ := h i _ hv
    rw [hv, Option.some.injEq] at hc
    rw [← hc] at hrow
    exact (settledRow_eq_ok_iff hv).mp hrow
  · intro h i v hv
    exact ⟨v, hv, (settledRow_eq_ok_iff hv).mpr (h i (List.getElem?_eq_some_iff.mp hv).1)⟩

/-- A column of a valid card number, a null and an address; the null row has no profile. -/
theorem column_roundTrip_recorded :
    (runScalar recordedCrypto (.fpe true) [
        [some "4012888888881881".toList, none, some "alice@x.com".toList],
        [some "card".toList, some "bogus".toList, some " Email ".toList],
        [some "k".toList, none, some "k".toList]] >>= fun masked =>
      runScalar recordedCrypto (.fpe false) [masked,
        [some "card".toList, some "bogus".toList, some " Email ".toList],
        [some "k".toList, none, some "k".toList]]) =
      .ok [some "4012888888881881".toList, none, some "alice@x.com".toList] := by
  refine (column_roundTrip recordedCrypto recordedCrypto_accepts (recordedCrypto_preserves Numerals)
    (recordedCrypto_inverse Ff1Domain) true 3 _ _ _ ⟨by decide, by decide⟩).2.mpr fun i hi => ?_
  match i, hi with
  | 0, _ =>
    exact .inr ⟨_, _, .card, _, rfl, rfl, rfl, by decide, by decide, fun _ _ => by decide⟩
  | 1, _ => exact .inl rfl
  | 2, _ =>
    exact .inr ⟨_, _, .email, _, rfl, rfl, rfl, by decide, by decide, fun h => by cases h⟩

end VgiMask
