import VgiMask.Adapter.ColumnRoundTrip
import VgiMask.Engine.Collisions
import VgiMask.Engine.HashInputs
import VgiMask.Common.Groups

/-!
# Masked join keys

Tables that are masked under one profile and one key are joined and grouped like the tables of
settled values: outside card numbers like the tables themselves. Equal frequencies stay equal,
which is what makes a masked column joinable and what a frequency analysis reads. Tokens join
the rows with one value and one key block, and others only through a collision of the hash.
-/

namespace VgiMask

open Common

/-- Every row has a key and a profile, however the profile is spelled. -/
structure Under (f : Format) (key : Text) (formats keys : List (Option Text)) (n : ℕ) : Prop where
  format_at : ∀ i < n, ∃ name, formats[i]? = some (some name) ∧ Format.parse name = .ok f
  key_at : ∀ i < n, keys[i]? = some (some key)

/-- The text that a value is encrypted to. -/
def ciphertext (C : Crypto) (f : Format) (key v : Text) : Text :=
  match fpeEncrypt C v f key with
  | .ok out => out
  | _ => []

section Ciphertexts

variable {C : Crypto} {f : Format} {key : Text} {n : ℕ} {column formats keys : List (Option Text)}

/-- The values of a column that fits have no more slots than FF1 takes. -/
theorem slots_length_of_fits (f : Format) {v : Text} (hfits : columnSize column ≤ i32Max)
    (hv : some v ∈ column) : (f.slots v).length ≤ u32Max := by
  have hsize : utf8Len v ≤ columnSize column := cellSize_le_columnSize hv
  have hslots := (slots_length_le f v).trans (length_le_utf8Len v)
  have hmax : i32Max ≤ u32Max := by decide
  omega

/-- The values of a column that fits are in reach of FF1. -/
theorem covers_of_fits (f : Format) {v : Text} (hfits : columnSize column ≤ i32Max)
    (hv : some v ∈ column) : f.Covers Ff1Domain (f.slots v).length :=
  covers_ff1Domain (slots_length_of_fits f hfits hv)

/-- A value in reach of FF1 is encrypted to its ciphertext. -/
theorem fpeEncrypt_eq_ciphertext (hkey : key ≠ []) (hacc : Ff1Accepts C Ff1Domain)
    (hpres : Ff1Preserves C Ff1Domain) {v : Text} (hv : f.Covers Ff1Domain (f.slots v).length) :
    fpeEncrypt C v f key = .ok (ciphertext C f key v) := by
  obtain ⟨out, hout⟩ : ∃ out, fpe C true v f key = .ok out := fpe_returns hkey hacc hpres hv
  have hout : fpeEncrypt C v f key = .ok out := hout
  rw [ciphertext, hout]

/-- Ciphertexts agree exactly when settled values do. -/
theorem ciphertext_eq_iff (hkey : key ≠ []) (hacc : Ff1Accepts C Ff1Domain)
    (hpres : Ff1Preserves C Ff1Domain) (hinj : Ff1Injective C Ff1Domain) {v w : Text}
    (hv : f.Covers Ff1Domain (f.slots v).length) (hw : f.Covers Ff1Domain (f.slots w).length) :
    ciphertext C f key v = ciphertext C f key w ↔ f.settled v = f.settled w := by
  rw [← fpeEncrypt_eq_iff_settled hkey hacc hpres hinj hv hw, fpeEncrypt_eq_ciphertext hkey hacc hpres hv,
    fpeEncrypt_eq_ciphertext hkey hacc hpres hw, Outcome.ok.injEq]

/-- A settled value has the ciphertext of the value. -/
theorem ciphertext_settled (hkey : key ≠ []) (hpres : Ff1Preserves C Ff1Domain) {v : Text}
    (hv : f.Covers Ff1Domain (f.slots v).length) :
    ciphertext C f key (f.settled v) = ciphertext C f key v := by
  have hsettled : fpe C true (f.settled v) f key = fpe C true v f key := fpe_settled hkey hpres hv
  have hsettled : fpeEncrypt C (f.settled v) f key = fpeEncrypt C v f key := hsettled
  rw [ciphertext, hsettled, ciphertext]

/-- A column of settled values has the ciphertexts of the column. -/
theorem rename_settled (hkey : key ≠ []) (hpres : Ff1Preserves C Ff1Domain)
    (hfits : columnSize column ≤ i32Max) :
    rename (ciphertext C f key) (rename f.settled column) = rename (ciphertext C f key) column := by
  rw [rename, rename, rename, List.map_map]
  apply List.map_congr_left
  intro cell hcell
  cases cell with
  | none => rfl
  | some v => exact congrArg some (ciphertext_settled hkey hpres (covers_of_fits f hfits hcell))

/-- Different settled values of columns that fit have different ciphertexts. -/
theorem settled_injOn (hkey : key ≠ []) (hacc : Ff1Accepts C Ff1Domain)
    (hpres : Ff1Preserves C Ff1Domain) (hinj : Ff1Injective C Ff1Domain)
    {left right : List (Option Text)} (hleft : columnSize left ≤ i32Max)
    (hright : columnSize right ≤ i32Max) (a b : Text) (ha : some a ∈ rename f.settled left)
    (hb : some b ∈ rename f.settled right) (h : ciphertext C f key a = ciphertext C f key b) : a = b := by
  obtain ⟨_ | v, hv, hva⟩ := List.mem_map.mp ha
  · cases hva
  obtain ⟨_ | w, hw, hwb⟩ := List.mem_map.mp hb
  · cases hwb
  obtain rfl : f.settled v = a := Option.some.inj hva
  obtain rfl : f.settled w = b := Option.some.inj hwb
  have hcovv := covers_of_fits f hleft hv
  have hcovw := covers_of_fits f hright hw
  rw [ciphertext_settled hkey hpres hcovv, ciphertext_settled hkey hpres hcovw] at h
  exact (ciphertext_eq_iff hkey hacc hpres hinj hcovv hcovw).mp h

/-- A column masked under one profile and one key holds the ciphertexts of its values. -/
theorem runScalar_under (hkey : key ≠ []) (hacc : Ff1Accepts C Ff1Domain)
    (hpres : Ff1Preserves C Numerals) (htable : Tabular [column, formats, keys] n)
    (hunder : Under f key formats keys n) :
    runScalar C (.fpe true) [column, formats, keys] = .ok (rename (ciphertext C f key) column) := by
  have hpres' := hpres.ff1Domain
  obtain ⟨hlen, hlengths⟩ := List.forall_mem_cons.mp htable.length_eq
  obtain ⟨hsize, hsizes⟩ := List.forall_mem_cons.mp htable.fits
  rw [runScalar_fpe hpres ⟨hlengths, hsizes⟩ ⟨hlen, hsize⟩, callRows_eq_ok_iff]
  refine ⟨List.length_map _, fun i v hv => ⟨v.map (ciphertext C f key), ?_, ?_⟩⟩
  · rw [rename, List.getElem?_map, hv, Option.map_some]
  · cases v with
    | none => exact cellOf_of_none ⟨⟨0, Nat.succ_pos 2⟩, rfl⟩
    | some v =>
      have hi : i < n := hlen ▸ (List.getElem?_eq_some_iff.mp hv).1
      obtain ⟨name, hname, hf⟩ := hunder.format_at i hi
      have hk := hunder.key_at i hi
      have hcov := covers_of_fits f hsize (List.mem_of_getElem? hv)
      have hencrypt : fpeEncrypt C v f key = .ok (ciphertext C f key v) :=
        fpeEncrypt_eq_ciphertext hkey hacc hpres' hcov
      have hencrypt : fpe C true v f key = .ok (ciphertext C f key v) := hencrypt
      rw [fpeCall_cell_of_some (Option.join_eq_some_iff.mpr hname) (Option.join_eq_some_iff.mpr hk), hf,
        Outcome.ok_bind, hencrypt]
      rfl

end Ciphertexts

/-- Two tables whose key columns are encrypted under one profile and one key are joined and
grouped as by their settled values, which are the values themselves unless a card number has a
wrong check digit. -/
theorem masked_tables (C : Crypto) (hacc : Ff1Accepts C Ff1Domain) (hpres : Ff1Preserves C Numerals)
    (hinj : Ff1Injective C Ff1Domain) (f : Format) (key : Text) (hkey : key ≠ []) (n m : ℕ)
    (left lformats lkeys right rformats rkeys : List (Option Text))
    (hleft : Tabular [left, lformats, lkeys] n) (hlunder : Under f key lformats lkeys n)
    (hright : Tabular [right, rformats, rkeys] m) (hrunder : Under f key rformats rkeys m) :
    ∃ maskedL maskedR : List (Option Text),
      runScalar C (.fpe true) [left, lformats, lkeys] = .ok maskedL ∧
      runScalar C (.fpe true) [right, rformats, rkeys] = .ok maskedR ∧
      joinRows maskedL maskedR = joinRows (rename f.settled left) (rename f.settled right) ∧
      (∀ (i : ℕ) (c s : Option Text), maskedL[i]? = some c → (rename f.settled left)[i]? = some s →
        maskedL.count c = (rename f.settled left).count s) ∧
      maskedL.dedup.length = (rename f.settled left).dedup.length ∧
      ((f = .card → ∀ v, some v ∈ left ++ right → (v.filter Char.isDigit).length = 16 →
        isLuhnValid v = true) → rename f.settled left = left ∧ rename f.settled right = right) := by
  have hpres' := hpres.ff1Domain
  have hlfits := (List.forall_mem_cons.mp hleft.fits).1
  have hrfits := (List.forall_mem_cons.mp hright.fits).1
  have hL := rename_settled (f := f) hkey hpres' hlfits
  have hR := rename_settled (f := f) hkey hpres' hrfits
  have hgroups := injOn_map (settled_injOn (f := f) hkey hacc hpres' hinj hlfits hlfits)
  refine ⟨_, _, runScalar_under hkey hacc hpres hleft hlunder,
    runScalar_under hkey hacc hpres hright hrunder, ?_, ?_, ?_, ?_⟩
  · rw [← hL, ← hR]
    exact joinRows_rename (settled_injOn hkey hacc hpres' hinj hlfits hrfits)
  · intro i c s hc hs
    rw [← hL, rename, List.getElem?_map, hs, Option.map_some, Option.some.injEq] at hc
    rw [← hL, ← hc]
    exact count_map_of_injOn hgroups (List.mem_of_getElem? hs)
  · rw [← hL]
    exact length_dedup_map_of_injOn hgroups
  · intro hvalid
    have hsame {column : List (Option Text)} (hcolumn : ∀ v, some v ∈ column → some v ∈ left ++ right) :
        rename f.settled column = column := by
      have hcells : ∀ cell ∈ column, Option.map f.settled cell = id cell := by
        intro cell hcell
        cases cell with
        | none => rfl
        | some v =>
          refine congrArg some ((settled_eq_self_iff_luhn f v).mpr fun hf h16 => ?_)
          exact hvalid hf v (hcolumn v hcell) h16
      rw [rename, List.map_congr_left hcells, List.map_id]
    exact ⟨hsame fun v hv => List.mem_append_left _ hv, hsame fun v hv => List.mem_append_right _ hv⟩

/-- A number with a wrong check digit is joined to the one with the right one. -/
theorem masked_tables_recorded :
    joinRows [some "4012-8888-8888-1880".toList, none] [none, some "4012-8888-8888-1881".toList] = [] ∧
      ∃ maskedL maskedR : List (Option Text),
        runScalar recordedCrypto (.fpe true) [[some "4012-8888-8888-1880".toList, none],
          [some "card".toList, some "card".toList], [some "k".toList, some "k".toList]] = .ok maskedL ∧
        runScalar recordedCrypto (.fpe true) [[none, some "4012-8888-8888-1881".toList],
          [some "card".toList, some " CARD ".toList], [some "k".toList, some "k".toList]] = .ok maskedR ∧
        joinRows maskedL maskedR = [(0, 1)] := by
  have hunder (name : Text) (hname : Format.parse name = .ok .card) :
      Under .card "k".toList [some "card".toList, some name] [some "k".toList, some "k".toList] 2 := by
    constructor
    · intro i hi
      match i, hi with
      | 0, _ => exact ⟨_, rfl, by decide⟩
      | 1, _ => exact ⟨_, rfl, hname⟩
    · decide
  obtain ⟨maskedL, maskedR, hL, hR, hjoin, -⟩ := masked_tables recordedCrypto recordedCrypto_accepts
    (recordedCrypto_preserves Numerals) (recordedCrypto_injective Ff1Domain) .card "k".toList
    (by decide) 2 2 [some "4012-8888-8888-1880".toList, none] _ _
    [none, some "4012-8888-8888-1881".toList] _ _ ⟨by decide, by decide⟩
    (hunder "card".toList (by decide)) ⟨by decide, by decide⟩ (hunder " CARD ".toList (by decide))
  refine ⟨by decide, maskedL, maskedR, hL, hR, hjoin.trans ?_⟩
  decide

section Tokens

variable {C : Crypto} {values keys out : List (Option Text)} {i : ℕ}

/-- A row with a value and a key has the answer of the engine to them. -/
theorem tokenCell_of_some {v k : Text} (hv : values[i]? = some (some v)) (hk : keys[i]? = some (some k)) :
    Adapter.token.scalarCell C [values, keys] i = some <$> (token C v k).mapErr valueError := by
  have hcell {ops : Fin 2 → Text} (h : ∀ j : Fin 2, cellsAt [values, keys] i j = some (ops j)) :
      Adapter.token.scalarCell C [values, keys] i =
        some <$> (token C (ops 0) (ops 1)).mapErr valueError := cellOf_of_some h
  have hops : ∀ j : Fin 2, cellsAt [values, keys] i j = some ((![v, k] : Fin 2 → Text) j) :=
    Fin.forall_fin_two.mpr ⟨Option.join_eq_some_iff.mpr hv, Option.join_eq_some_iff.mpr hk⟩
  rw [hcell hops]
  rfl

/-- A row's cell is a token when the row has a value and a key of this token. -/
theorem tokenCell_eq_some_iff {t : Text} :
    Adapter.token.scalarCell C [values, keys] i = .ok (some t) ↔
      ∃ v k, values[i]? = some (some v) ∧ keys[i]? = some (some k) ∧ token C v k = .ok t := by
  constructor
  · intro h
    cases hrow : allSome fun j : Fin 2 => cellsAt [values, keys] i j with
    | none =>
      have hnull : Adapter.token.scalarCell C [values, keys] i = .ok none :=
        cellOf_of_none ((allSome_eq_none_iff _).mp hrow)
      rw [hnull] at h
      cases h
    | some ops =>
      have hall := (allSome_eq_some_iff _ _).mp hrow
      have hv : values[i]? = some (some (ops 0)) := Option.join_eq_some_iff.mp (hall 0)
      have hk : keys[i]? = some (some (ops 1)) := Option.join_eq_some_iff.mp (hall 1)
      rw [tokenCell_of_some hv hk, Outcome.map_eq_ok_iff] at h
      obtain ⟨_, ht, hsome⟩ := h
      obtain rfl := Option.some.inj hsome
      exact ⟨ops 0, ops 1, hv, hk, (Outcome.mapErr_eq_ok_iff _ _ _).mp ht⟩
  · intro ⟨v, k, hv, hk, ht⟩
    rw [tokenCell_of_some hv hk, ht]
    rfl

/-- The rows that hold tokens have a value and a key that is not empty. -/
theorem token_row (h : runScalar C .token [values, keys] = .ok out) :
    (∀ t, out[i]? = some (some t) ↔ ∃ v k, values[i]? = some (some v) ∧ keys[i]? = some (some k) ∧
      token C v k = .ok t) ∧
    ∀ v k, values[i]? = some (some v) → keys[i]? = some (some k) → k ≠ [] := by
  have harity : Adapter.token.arity ≤ [values, keys].length := Nat.le_refl 2
  obtain ⟨htable, hrows⟩ := Adapter.rows_of_runScalar harity h
  have hlen : values.length = out.length := htable.length_eq values List.mem_cons_self
  constructor
  · intro t
    rw [← tokenCell_eq_some_iff]
    constructor
    · intro ht
      obtain ⟨c, hc, hcell⟩ := hrows i (List.getElem?_eq_some_iff.mp ht).1
      rw [hcell, Option.some.inj (hc.symm.trans ht)]
    · intro ht
      obtain ⟨v, -, hv, -⟩ := tokenCell_eq_some_iff.mp ht
      obtain ⟨c, hc, hcell⟩ := hrows i (hlen ▸ (List.getElem?_eq_some_iff.mp hv).1)
      rw [hc, Outcome.ok.inj (hcell.symm.trans ht)]
  · intro v k hv hk hnil
    obtain ⟨c, -, hcell⟩ := hrows i (hlen ▸ (List.getElem?_eq_some_iff.mp hv).1)
    rw [tokenCell_of_some hv hk, hnil, token_nil_key] at hcell
    cases hcell

end Tokens

/-- Two token columns, whatever the keys of their rows, join the rows that have one value and
one key block, and no others unless the hash collides on the inputs named; every token is of
thirty-two lower-case hexadecimal digits. -/
theorem token_tables (C : Crypto) (left lkeys right rkeys tokensL tokensR : List (Option Text))
    (hleft : runScalar C .token [left, lkeys] = .ok tokensL)
    (hright : runScalar C .token [right, rkeys] = .ok tokensR) :
    (∀ i j, (i, j) ∈ joinRows tokensL tokensR ↔
      ∃ v k w k', left[i]? = some (some v) ∧ lkeys[i]? = some (some k) ∧
        right[j]? = some (some w) ∧ rkeys[j]? = some (some k') ∧
        ((v = w ∧ tokenKeyBlock C k = tokenKeyBlock C k') ∨
          (tokenKeyBlock C k = tokenKeyBlock C k' ∧ InnerCollision C v k w k') ∨
            OuterCollision C v k w k')) ∧
      ∀ t, some t ∈ tokensL → t.length = 32 ∧ ∀ c ∈ t, c ∈ "0123456789abcdef".toList := by
  constructor
  · intro i j
    obtain ⟨hltoken, hlkey⟩ := token_row (i := i) hleft
    obtain ⟨hrtoken, hrkey⟩ := token_row (i := j) hright
    rw [mem_joinRows]
    constructor
    · intro ⟨t, ht, ht'⟩
      obtain ⟨v, k, hv, hk, htoken⟩ := (hltoken t).mp ht
      obtain ⟨w, k', hw, hk', htoken'⟩ := (hrtoken t).mp ht'
      refine ⟨v, k, w, k', hv, hk, hw, hk', ?_⟩
      exact (token_eq_token_cases (hlkey v k hv hk) (hrkey w k' hw hk')).mp (htoken.trans htoken'.symm)
    · intro ⟨v, k, w, k', hv, hk, hw, hk', hcases⟩
      have hsame := (token_eq_token_cases (hlkey v k hv hk) (hrkey w k' hw hk')).mpr hcases
      obtain ⟨t, ht, -⟩ := token_eq_ok C v (hlkey v k hv hk)
      exact ⟨t, (hltoken t).mpr ⟨v, k, hv, hk, ht⟩,
        (hrtoken t).mpr ⟨w, k', hw, hk', hsame.symm.trans ht⟩⟩
  · intro t ht
    obtain ⟨i, hi⟩ := List.getElem?_of_mem ht
    obtain ⟨hltoken, hlkey⟩ := token_row (i := i) hleft
    obtain ⟨v, k, hv, hk, htoken⟩ := (hltoken t).mp hi
    rw [token_eq_hexEncode C v (hlkey v k hv hk), Outcome.ok.injEq] at htoken
    obtain ⟨hlen, hdigits⟩ := hexEncode_digits
      ((hmacSha256 C (tokenKey k) (utf8Bytes v)).take 16)
    have htag : (hmacSha256 C (tokenKey k) (utf8Bytes v)).length = 32 := sha256Bytes_length C _
    rw [List.length_take, htag] at hlen
    rw [← htoken]
    exact ⟨hlen, hdigits⟩

/-- One account under a key and under the key with a NUL behind it is joined, another is not. -/
theorem token_tables_recorded :
    runScalar recordedCrypto .token [[none, some "acct-1".toList, some "acct-2".toList],
        [some "k".toList, some "k".toList, some "k".toList]] =
      .ok [none, some "4ee5c6b72997d82470e98e60978d82d6".toList,
        some "40b04d739c4f9a7a9f9dcb63c9212dbd".toList] ∧
    runScalar recordedCrypto .token [[some "acct-1".toList], [some ("k".toList ++ [nul])]] =
      .ok [some "4ee5c6b72997d82470e98e60978d82d6".toList] ∧
    (1, 0) ∈ joinRows [none, some "4ee5c6b72997d82470e98e60978d82d6".toList,
        some "40b04d739c4f9a7a9f9dcb63c9212dbd".toList]
      [some "4ee5c6b72997d82470e98e60978d82d6".toList] ∧
    (2, 0) ∉ joinRows [none, some "4ee5c6b72997d82470e98e60978d82d6".toList,
        some "40b04d739c4f9a7a9f9dcb63c9212dbd".toList]
      [some "4ee5c6b72997d82470e98e60978d82d6".toList] := by
  have hleft : runScalar recordedCrypto .token [[none, some "acct-1".toList, some "acct-2".toList],
      [some "k".toList, some "k".toList, some "k".toList]] =
    .ok [none, some "4ee5c6b72997d82470e98e60978d82d6".toList,
      some "40b04d739c4f9a7a9f9dcb63c9212dbd".toList] := by decide +kernel
  have hright : runScalar recordedCrypto .token [[some "acct-1".toList], [some ("k".toList ++ [nul])]] =
    .ok [some "4ee5c6b72997d82470e98e60978d82d6".toList] := by decide +kernel
  have hblock : tokenKeyBlock recordedCrypto "k".toList =
      tokenKeyBlock recordedCrypto ("k".toList ++ [nul]) :=
    (tokenKeyBlock_eq_iff recordedCrypto (by decide) (by decide)).mpr (by decide)
  refine ⟨hleft, hright, ?_, by decide⟩
  exact ((token_tables recordedCrypto _ _ _ _ _ _ hleft hright).1 1 0).mpr
    ⟨_, _, _, _, rfl, rfl, rfl, rfl, .inl ⟨rfl, hblock⟩⟩

end VgiMask
