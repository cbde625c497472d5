import VgiMask.Engine.Fpe

/-!
# The alphabet transform rewrites slots

Numeral strings and strings of symbols of one alphabet determine each other. With an FF1
result of the right shape, the loops of the alphabet transform are one rewrite of the slots:
the gate sees only how many there are, and the block that FF1 receives is the string of
their numerals.
-/

namespace VgiMask

open Common

namespace Alphabet

/-- The numerals of the encryptable characters, in order. -/
def numerals (A : Alphabet) (cs : Text) : List ℕ := cs.filterMap A.valueOf

/-- The symbol of a numeral below the radix. -/
def symbol (A : Alphabet) (v : ℕ) : Char := A.symbols.getD v '0'

/-- The symbols of a numeral string. -/
def render (A : Alphabet) (nums : List ℕ) : Text := nums.map A.symbol

variable {A : Alphabet} {cs : Text} {nums : List ℕ}

/-- Structural characters have no numerals. -/
theorem numerals_filter (A : Alphabet) (cs : Text) :
    A.numerals (cs.filter A.contains) = A.numerals cs := by
  induction cs with
  | nil => rfl
  | cons c cs ih =>
    cases hc : A.valueOf c <;> simp_all [numerals, contains]

/-- There is one numeral for each encryptable character. -/
theorem numerals_length (A : Alphabet) (cs : Text) :
    (A.numerals cs).length = (cs.filter A.contains).length := by
  induction cs with
  | nil => rfl
  | cons c cs ih =>
    cases hc : A.valueOf c <;> simp_all [numerals, contains]

/-- Where every character is encryptable, a prefix has the first numerals. -/
theorem take_numerals (hcs : ∀ c ∈ cs, A.contains c = true) (n : ℕ) :
    (A.numerals cs).take n = A.numerals (cs.take n) := by
  induction cs generalizing n with
  | nil => rw [List.take_nil]; exact List.take_nil
  | cons c cs ih =>
    have htail := ih fun d hd => hcs d (List.mem_cons_of_mem _ hd)
    obtain ⟨v, hv⟩ := Option.isSome_iff_exists.mp (hcs c List.mem_cons_self)
    cases n with
    | zero => rfl
    | succ n =>
      rw [List.take_succ_cons, numerals, numerals, List.filterMap_cons_some hv,
        List.filterMap_cons_some hv, List.take_succ_cons]
      exact congrArg (v :: ·) (htail n)

/-- The numerals are below the radix. -/
theorem numerals_lt (A : Alphabet) (cs : Text) : Numerals A.radix (A.numerals cs) := by
  intro v hv
  obtain ⟨c, -, hc⟩ := List.mem_filterMap.mp hv
  exact lt_radix_of_valueOf hc

/-- A numeral below the radix has a symbol, which is encryptable again. -/
theorem valueOf_symbol {v : ℕ} (hv : v < A.radix) : A.valueOf (A.symbol v) = some v := by
  have hget : A.symbols[v]? = some A.symbols[v] := List.getElem?_eq_getElem hv
  rw [valueOf_eq_some_iff, symbol, List.getD_eq_getElem?_getD, hget, Option.getD_some]

/-- The symbol of a character's numeral is the character. -/
theorem symbol_of_valueOf {c : Char} {v : ℕ} (h : A.valueOf c = some v) : A.symbol v = c := by
  rw [symbol, List.getD_eq_getElem?_getD, valueOf_eq_some_iff.mp h, Option.getD_some]

/-- The symbol table is read without a panic below the radix. -/
theorem symbolOf_of_lt {ε : Type} {v : ℕ} (hv : v < A.radix) :
    (A.symbolOf v : Outcome ε Char) = .ok (A.symbol v) := by
  rw [symbolOf, getChecked_of_getElem? (valueOf_eq_some_iff.mp (valueOf_symbol hv))]

/-- One symbol is written for each numeral. -/
@[simp] theorem render_length (A : Alphabet) (nums : List ℕ) :
    (A.render nums).length = nums.length := List.length_map _

/-- Rendered numerals below the radix are encryptable. -/
theorem contains_of_mem_render (h : Numerals A.radix nums) : ∀ c ∈ A.render nums, A.contains c := by
  intro c hc
  obtain ⟨v, hv, rfl⟩ := List.mem_map.mp hc
  rw [contains, valueOf_symbol (h v hv)]
  rfl

/-- Rendered numerals are read back. -/
theorem numerals_render (h : Numerals A.radix nums) : A.numerals (A.render nums) = nums := by
  induction nums with
  | nil => rfl
  | cons v nums ih =>
    have htail := ih fun w hw => h w (List.mem_cons_of_mem _ hw)
    rw [render, List.map_cons, numerals, List.filterMap_cons, valueOf_symbol (h v List.mem_cons_self)]
    exact congrArg (v :: ·) htail

/-- The symbols of a text's numerals are its encryptable characters. -/
theorem render_numerals (A : Alphabet) (cs : Text) :
    A.render (A.numerals cs) = cs.filter A.contains := by
  induction cs with
  | nil => rfl
  | cons c cs ih =>
    cases hc : A.valueOf c with
    | none => simpa [numerals, contains, hc] using ih
    | some v =>
      have hsymbol := symbol_of_valueOf hc
      simpa [numerals, contains, hc, render, hsymbol] using ih

/-- Equal numerals mean equal encryptable characters. -/
theorem filter_eq_of_numerals_eq {ds : Text} (h : A.numerals cs = A.numerals ds) :
    cs.filter A.contains = ds.filter A.contains := by
  rw [← render_numerals, ← render_numerals, h]

end Alphabet

/-- The code's two error conversions are one conversion of the whole use of FF1. -/
theorem ff1Apply_eq (C : Crypto) (key : Text) (radix : ℕ) (nums : List ℕ) (forward : Bool) :
    ff1Apply C key radix nums forward = (C.ff1 (aesKey C key) radix forward nums).mapErr .fpe := by
  unfold ff1Apply Crypto.ff1
  cases C.ff1New (aesKey C key) radix with
  | ok ff =>
    cases forward
    · cases hout : ff.decrypt [] nums <;> simp [Outcome.mapErr, hout]
    · cases hout : ff.encrypt [] nums <;> simp [Outcome.mapErr, hout]
  | err e => rfl
  | panic => rfl
  | diverge => rfl

/-- A value returned through the error conversion was returned by FF1. -/
theorem ff1Apply_eq_ok_iff (C : Crypto) (key : Text) (radix : ℕ) (nums out : List ℕ)
    (forward : Bool) :
    ff1Apply C key radix nums forward = .ok out ↔
      C.ff1 (aesKey C key) radix forward nums = .ok out := by
  rw [ff1Apply_eq, Outcome.mapErr_eq_ok_iff]

/-- The transform of the slot symbols alone: short runs pass, others go through FF1. -/
def alphabetSlots (C : Crypto) (key : Text) (A : Alphabet) (forward : Bool) (slots : Text) :
    Outcome MaskError Text :=
  if A.radix ^ slots.length < minDomain then .ok slots
  else A.render <$> ff1Apply C key A.radix (A.numerals slots) forward

/-- The alphabet transform is a rewrite of the slots by their transform. -/
theorem fpeOverAlphabet_eq (C : Crypto) (key value : Text) (A : Alphabet) (forward : Bool)
    (hshape : minDomain ≤ A.radix ^ (value.filter A.contains).length →
      ∀ out, ff1Apply C key A.radix (A.numerals value) forward = .ok out →
        out.length = (A.numerals value).length ∧ Numerals A.radix out) :
    fpeOverAlphabet C key value A forward =
      fill A.contains value <$> alphabetSlots C key A forward (value.filter A.contains) := by
  obtain ⟨minLen, hmin, hgate⟩ := A.minLen_spec
  have hcollect : collectSlots A.valueOf value =
      (slotIndices A.contains 0 value, A.numerals value) := collectSlots_eq A.valueOf value
  unfold fpeOverAlphabet alphabetSlots
  rw [hcollect, A.numerals_filter]
  dsimp only
  rw [hmin, Outcome.ok_bind, A.numerals_length]
  by_cases hshort : A.radix ^ (value.filter A.contains).length < minDomain
  · rw [if_pos hshort, if_pos ((hgate _).mpr hshort), Outcome.map_ok, fill_filter_self]
    rfl
  · rw [if_neg hshort, if_neg fun hlt => hshort ((hgate _).mp hlt)]
    cases hout : ff1Apply C key A.radix (A.numerals value) forward with
    | ok out =>
      obtain ⟨hlen, hrange⟩ := hshape (by omega) out hout
      have hmarks : List.Forall₂ (fun m i => (Outcome.ok m : Outcome MaskError ℕ) = .ok i)
          (slotIndices A.contains 0 value) (slotIndices A.contains 0 value) :=
        List.forall₂_same.mpr fun _ _ => rfl
      rw [Outcome.ok_bind, Outcome.map_ok, Outcome.map_ok]
      exact writeSlots_eq_fill (fun v hv => Alphabet.symbolOf_of_lt (hrange v hv)) hmarks
        (by rw [hlen, Alphabet.numerals_length])
    | err e => rfl
    | panic => rfl
    | diverge => rfl

end VgiMask
