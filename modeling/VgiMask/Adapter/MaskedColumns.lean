import VgiMask.Adapter.JoinKeys
import VgiMask.Engine.KnownPairs
import Mathlib.Data.List.Forall2

/-!
# What a masked column shows

A masked column keeps the nulls, the shape of every value, the values that are too short for FF1,
which stand in it in clear, and which values have equal numerals. Every column that keeps these is
the masked column under some cipher with all that is assumed of FF1, so over all these ciphers a
masked copy gives away its frequencies, its shapes and its short values.
-/

namespace VgiMask

open Common

/-- The values of a column with what stands in their rows of another. -/
def rowPairs (column masked : List (Option Text)) : Set (Text × Text) :=
  {p | (some p.1, some p.2) ∈ column.zip masked}

/-- The nulls of a column and what each value keeps under encryption are those of another. -/
def MaskedRows (f : Format) (column masked : List (Option Text)) : Prop :=
  List.Forall₂ (Option.Rel (MaskedAs f)) column masked

section Rows

variable {f : Format} {column masked : List (Option Text)}

/-- A column renamed value by value has each value paired with its name. -/
theorem eq_of_mem_zip_rename {g : Text → Text} {cell cell' : Option Text}
    (h : (cell, cell') ∈ column.zip (rename g column)) : cell ∈ column ∧ cell' = cell.map g := by
  rw [rename, List.zip_map_right, List.mem_map] at h
  obtain ⟨⟨a, b⟩, hab, heq⟩ := h
  obtain ⟨i, hi, hget⟩ := List.getElem_of_mem hab
  rw [List.getElem_zip, Prod.mk.injEq] at hget
  obtain ⟨rfl, rfl⟩ := hget
  obtain ⟨rfl, rfl⟩ := Prod.mk.inj heq
  exact ⟨List.getElem_mem _, rfl⟩

/-- Every value stands in the rows of a masked column with what it keeps. -/
theorem MaskedRows.maskedAs (h : MaskedRows f column masked) {p : Text × Text}
    (hp : p ∈ rowPairs column masked) : MaskedAs f p.1 p.2 := by
  have hrel := (List.forall₂_iff_zip.mp h).2 hp
  exact Option.rel_some_some.mp hrel

/-- Rows with the nulls of a column and the names of its values are the renamed column. -/
theorem MaskedRows.eq_rename {g : Text → Text} (h : MaskedRows f column masked)
    (hpairs : ∀ p ∈ rowPairs column masked, g p.1 = p.2) : rename g column = masked := by
  obtain ⟨hlen, hrel⟩ := List.forall₂_iff_zip.mp h
  have hrows : List.Forall₂ (fun cell cell' => Option.map g cell = cell') column masked := by
    refine List.forall₂_iff_zip.mpr ⟨hlen, fun {cell cell'} hmem => ?_⟩
    cases hrel hmem with
    | none => rfl
    | some hmasked => exact congrArg some (hpairs (_, _) hmem)
  rw [← List.forall₂_map_left_iff, List.forall₂_eq_eq_eq] at hrows
  exact hrows

end Rows

/-- The columns to which a column can be masked under one profile and one key, whatever the cipher,
are those with the same nulls, the same shapes, the short values kept, and equal numerals exactly
where the values have equal numerals. -/
theorem masked_columns (f : Format) (key : Text) (hkey : key ≠ []) (n : ℕ)
    (column formats keys masked : List (Option Text)) (htable : Tabular [column, formats, keys] n)
    (hunder : Under f key formats keys n) :
    (∃ C : Crypto, C.Ideal ∧ runScalar C (.fpe true) [column, formats, keys] = .ok masked) ↔
      MaskedRows f column masked ∧ SameEqualities f (rowPairs column masked) := by
  have hfits := (List.forall_mem_cons.mp htable.fits).1
  have hlen : ∀ p ∈ rowPairs column masked, (f.slots p.1).length ≤ u32Max := fun p hp =>
    slots_length_of_fits f hfits (List.of_mem_zip hp).1
  have hrun {C : Crypto} (hC : C.Ideal) :=
    runScalar_under hkey hC.accepts.accepts hC.preserves htable hunder
  have hencrypt {C : Crypto} (hC : C.Ideal) {v : Text} (hv : some v ∈ column) :
      fpeEncrypt C v f key = .ok (ciphertext C f key v) :=
    fpeEncrypt_eq_ciphertext hkey hC.accepts.accepts hC.preserves.ff1Domain (covers_of_fits f hfits hv)
  constructor
  · intro ⟨C, hC, hout⟩
    obtain rfl := Outcome.ok.inj ((hrun hC).symm.trans hout)
    have hpairs : ∀ p ∈ rowPairs column (rename (ciphertext C f key) column),
        fpeEncrypt C p.1 f key = .ok p.2 := by
      intro p hp
      obtain ⟨hv, hout⟩ := eq_of_mem_zip_rename hp
      rw [hencrypt hC hv, Option.some.inj hout]
    obtain ⟨hmasked, hequal⟩ := (exists_cipher_iff hkey hlen).mp ⟨C, hC, hpairs⟩
    refine ⟨List.forall₂_iff_zip.mpr ⟨(List.length_map _).symm, fun {cell cell'} hmem => ?_⟩, hequal⟩
    obtain ⟨-, rfl⟩ := eq_of_mem_zip_rename hmem
    cases cell with
    | none => exact .none
    | some v => exact .some (hmasked (v, _) hmem)
  · intro ⟨hrows, hequal⟩
    obtain ⟨C, hC, hpairs⟩ := (exists_cipher_iff hkey hlen).mpr ⟨fun p hp => hrows.maskedAs hp, hequal⟩
    refine ⟨C, hC, (hrun hC).trans (congrArg Outcome.ok (hrows.eq_rename fun p hp => ?_))⟩
    exact Outcome.ok.inj ((hencrypt hC (List.of_mem_zip hp).1).symm.trans (hpairs p hp))

/-- Two spellings of one social security number may be masked to any two spellings of another one
in the same shapes, but not to two numbers. -/
theorem masked_columns_recorded :
    (∃ C : Crypto, C.Ideal ∧ runScalar C (.fpe true)
        [[some "123-45-6789".toList, none, some "123456789".toList],
          List.replicate 3 (some "ssn".toList), List.replicate 3 (some "k".toList)] =
        .ok [some "987-65-4321".toList, none, some "987654321".toList]) ∧
      ¬ ∃ C : Crypto, C.Ideal ∧ runScalar C (.fpe true)
        [[some "123-45-6789".toList, none, some "123456789".toList],
          List.replicate 3 (some "ssn".toList), List.replicate 3 (some "k".toList)] =
        .ok [some "987-65-4321".toList, none, some "987654322".toList] := by
  have hunder : Under .ssn "k".toList (List.replicate 3 (some "ssn".toList))
      (List.replicate 3 (some "k".toList)) 3 :=
    ⟨fun i hi => ⟨_, List.getElem?_replicate_of_lt hi, by decide⟩,
      fun i hi => List.getElem?_replicate_of_lt hi⟩
  have hiff (masked : List (Option Text)) := masked_columns .ssn "k".toList (by decide) 3
    [some "123-45-6789".toList, none, some "123456789".toList] _ _ masked ⟨by decide, by decide⟩ hunder
  have hlong : ¬ Format.ssn.Short "123-45-6789".toList ∧ ¬ Format.ssn.Short "123456789".toList := by
    rw [Format.Short, Format.Short]
    decide
  constructor
  · refine (hiff _).mpr ⟨?_, ?_⟩
    · refine .cons (.some ⟨by decide, by decide, fun h => absurd h hlong.1⟩) (.cons .none ?_)
      exact .cons (.some ⟨by decide, by decide, fun h => absurd h hlong.2⟩) .nil
    · -- all values of the column have the same numerals, and so have all of the masked one
      have hsame : ∀ p ∈ rowPairs [some "123-45-6789".toList, none, some "123456789".toList]
          [some "987-65-4321".toList, none, some "987654321".toList],
          Format.ssn.numeralString p.1 = Format.ssn.numeralString "123456789".toList ∧
            Format.ssn.numeralString p.2 = Format.ssn.numeralString "987654321".toList := by
        rintro ⟨v, out⟩ hp
        have hp : (some v, some out) ∈ [(some "123-45-6789".toList, some "987-65-4321".toList),
          (none, none), (some "123456789".toList, some "987654321".toList)] := hp
        rw [List.mem_cons, List.mem_cons, List.mem_singleton, Prod.mk.injEq, Prod.mk.injEq,
          Prod.mk.injEq] at hp
        rcases hp with ⟨hv, hout⟩ | ⟨hv, -⟩ | ⟨hv, hout⟩
        · rw [Option.some.inj hv, Option.some.inj hout]
          decide
        · cases hv
        · rw [Option.some.inj hv, Option.some.inj hout]
          exact ⟨rfl, rfl⟩
      intro p hp q hq _ _
      rw [(hsame p hp).1, (hsame p hp).2, (hsame q hq).1, (hsame q hq).2]
      exact iff_of_true rfl rfl
  · intro h
    have hequal := ((hiff _).mp h).2 ("123-45-6789".toList, "987-65-4321".toList) List.mem_cons_self
      ("123456789".toList, "987654322".toList)
      (List.mem_cons_of_mem _ (List.mem_cons_of_mem _ List.mem_cons_self)) hlong.1 hlong.2
    exact absurd (hequal.mpr (by decide)) (by decide)

end VgiMask
