import VgiMask.Engine.Crypto
import Mathlib.Data.Bool.AllAny
import Mathlib.Data.List.Nodup
import Mathlib.Tactic.Linarith

/-!
# Alphabets and the small-domain bound

An alphabet lists its symbols without repetition, so the numeral of a symbol is its place
and numerals and symbols determine each other. The shortest run that FF1 accepts is found
by multiplying up to the minimum domain; below radix two that loop never ends.
-/

namespace VgiMask

open Common

/-- The minimum domain size of FF1. -/
def minDomain : ℕ := 1000000

/-- An ordered set of one-byte symbols whose number is a radix of FF1. -/
structure Alphabet where
  symbols : List Char
  nodup : symbols.Nodup
  one_byte : ∀ c ∈ symbols, c.utf8Size = 1
  two_le : 2 ≤ symbols.length
  le_max : symbols.length ≤ 65536

namespace Alphabet

/-- The number of symbols. -/
def radix (A : Alphabet) : ℕ := A.symbols.length

/-- The numeral of a symbol, cast to 16 bits; a structural character has none. -/
def valueOf (A : Alphabet) (c : Char) : Option ℕ := (A.symbols.idxOf? c).map (· % 2 ^ 16)

/-- The symbol of a numeral; a numeral past the end panics. -/
def symbolOf {ε : Type} (A : Alphabet) (v : ℕ) : Outcome ε Char := getChecked A.symbols v

/-- Whether a character is encryptable. -/
def contains (A : Alphabet) (c : Char) : Bool := (A.valueOf c).isSome

end Alphabet

/-- The decimal digits. -/
def DIGITS : Alphabet where
  symbols := ['0', '1', '2', '3', '4', '5', '6', '7', '8', '9']
  nodup := by decide
  one_byte := List.all_iff_forall_prop.mp (by decide)
  two_le := by decide
  le_max := by decide

/-- The digits, the lower-case and the upper-case letters. -/
def ALNUM : Alphabet where
  symbols := [
    '0', '1', '2', '3', '4', '5', '6', '7', '8', '9', 'a', 'b', 'c', 'd', 'e', 'f', 'g', 'h',
    'i', 'j', 'k', 'l', 'm', 'n', 'o', 'p', 'q', 'r', 's', 't', 'u', 'v', 'w', 'x', 'y', 'z',
    'A', 'B', 'C', 'D', 'E', 'F', 'G', 'H', 'I', 'J', 'K', 'L', 'M', 'N', 'O', 'P', 'Q', 'R',
    'S', 'T', 'U', 'V', 'W', 'X', 'Y', 'Z']
  nodup := by decide
  one_byte := List.all_iff_forall_prop.mp (by decide)
  two_le := by decide
  le_max := by decide

/-- The multiplication loop, saturating at 128 bits; running out of rounds is not returning. -/
def minLenLoop {ε : Type} (radix : ℕ) : (rounds domain len : ℕ) → Outcome ε ℕ
  | 0, _, _ => .diverge
  | rounds + 1, domain, len =>
    if domain < minDomain then
      minLenLoop radix rounds (min (domain * radix) (2 ^ 128 - 1)) (len + 1)
    else .ok len

/-- The shortest accepted run; 21 rounds are enough for every radix from two on. -/
def minLenForRadix {ε : Type} (radix : ℕ) : Outcome ε ℕ := minLenLoop radix 21 1 0

/-- The loop runs through the powers of the radix up to the first that reaches the bound. -/
theorem minLenLoop_spec {ε : Type} {radix : ℕ} (h2 : 2 ≤ radix) (h32 : radix < 2 ^ 32)
    (rounds len : ℕ) (hbelow : ∀ k < len, radix ^ k < minDomain)
    (hrounds : minDomain ≤ 2 ^ (len + rounds)) :
    ∃ n, (minLenLoop radix (rounds + 1) (radix ^ len) len : Outcome ε ℕ) = .ok n ∧
      ∀ k, k < n ↔ radix ^ k < minDomain := by
  have hstop (hdone : minDomain ≤ radix ^ len) (k : ℕ) : k < len ↔ radix ^ k < minDomain := by
    constructor
    · exact hbelow k
    · intro hk
      by_contra hle
      have hmono : radix ^ len ≤ radix ^ k := Nat.pow_le_pow_right (by omega) (by omega)
      omega
  induction rounds generalizing len with
  | zero =>
    have hdone : minDomain ≤ radix ^ len := hrounds.trans (Nat.pow_le_pow_left h2 len)
    exact ⟨len, by rw [minLenLoop, if_neg (by omega)], hstop hdone⟩
  | succ rounds ih =>
    rw [minLenLoop]
    split
    · rename_i hlt
      have hprod : radix ^ len * radix < 2 ^ 128 - 1 := by
        calc
          radix ^ len * radix ≤ minDomain * 2 ^ 32 := Nat.mul_le_mul hlt.le h32.le
          _ < 2 ^ 128 - 1 := by decide
      have hbelow' : ∀ k < len + 1, radix ^ k < minDomain := by
        intro k hk
        rcases Nat.lt_succ_iff_lt_or_eq.mp hk with hk | rfl
        · exact hbelow k hk
        · exact hlt
      have hstop' (hdone : minDomain ≤ radix ^ (len + 1)) (k : ℕ) :
          k < len + 1 ↔ radix ^ k < minDomain := by
        constructor
        · exact hbelow' k
        · intro hk
          by_contra hle
          have hmono : radix ^ (len + 1) ≤ radix ^ k := Nat.pow_le_pow_right (by omega) (by omega)
          omega
      rw [min_eq_left hprod.le, ← pow_succ]
      exact ih (len + 1) hbelow' (by rw [Nat.add_right_comm]; exact hrounds) hstop'
    · rename_i hge
      exact ⟨len, rfl, hstop (by omega)⟩

/-- The shortest accepted run is the gate `radix ^ n < 1_000_000`. -/
theorem minLenForRadix_spec {ε : Type} {radix : ℕ} (h2 : 2 ≤ radix) (h32 : radix < 2 ^ 32) :
    ∃ n, (minLenForRadix radix : Outcome ε ℕ) = .ok n ∧ ∀ k, k < n ↔ radix ^ k < minDomain := by
  obtain ⟨n, hn, hgate⟩ := minLenLoop_spec h2 h32 20 0 (by simp) (by decide)
  exact ⟨n, by simpa [minLenForRadix] using hn, hgate⟩

namespace Alphabet

variable {A : Alphabet} {c : Char} {v : ℕ}

/-- The numeral of a symbol is its place. -/
theorem valueOf_eq_some_iff : A.valueOf c = some v ↔ A.symbols[v]? = some c := by
  have hcast {i : ℕ} (hi : i < A.symbols.length) : i % 2 ^ 16 = i :=
    Nat.mod_eq_of_lt (hi.trans_le A.le_max)
  rw [valueOf, Option.map_eq_some_iff]
  constructor
  · intro ⟨i, hi, hiv⟩
    obtain ⟨hlt, hget, -⟩ := List.idxOf?_eq_some_iff.mp hi
    rw [← hiv, hcast hlt, List.getElem?_eq_getElem hlt, hget]
  · intro h
    obtain ⟨hlt, hget⟩ := List.getElem?_eq_some_iff.mp h
    refine ⟨v, List.idxOf?_eq_some_iff.mpr ⟨hlt, hget, ?_⟩, hcast hlt⟩
    intro j hj heq
    have hjv := A.nodup.getElem_inj_iff.mp (heq.trans hget.symm)
    omega

/-- The bound of an alphabet is found, and it is the gate on its radix. -/
theorem minLen_spec {ε : Type} (A : Alphabet) :
    ∃ n, (minLenForRadix A.radix : Outcome ε ℕ) = .ok n ∧ ∀ k, k < n ↔ A.radix ^ k < minDomain :=
  minLenForRadix_spec A.two_le (A.le_max.trans_lt (by decide))

/-- A numeral of a symbol is below the radix. -/
theorem lt_radix_of_valueOf (h : A.valueOf c = some v) : v < A.radix :=
  (List.getElem?_eq_some_iff.mp (valueOf_eq_some_iff.mp h)).1

/-- The encryptable characters are the symbols. -/
theorem contains_iff : A.contains c = true ↔ c ∈ A.symbols := by
  rw [contains, Option.isSome_iff_exists, List.mem_iff_getElem?]
  exact exists_congr fun _ => valueOf_eq_some_iff

end Alphabet

end VgiMask
