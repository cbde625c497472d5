import VgiMask.Engine.CheckDigit
import VgiMask.Engine.KeyedCipher

/-!
# The small-domain gate

The loop that finds the shortest accepted run multiplies a number below the minimum domain by
a 32-bit radix, so it never saturates, and from radix two on it ends within twenty-one rounds
with the exact bound. The alphabet transform passes exactly the runs below that bound and
hands every other run, whole and in order, to FF1.
-/

namespace VgiMask

open Common

section Loop

variable {ε : Type} {radix : ℕ}

/-- Below radix two the loop never ends. -/
theorem minLenLoop_diverges (h : radix < 2) (rounds : ℕ) :
    (minLenLoop radix rounds 1 0 : Outcome ε ℕ) = .diverge := by
  have hsmall (rounds domain len : ℕ) (hdomain : domain ≤ 1) :
      (minLenLoop radix rounds domain len : Outcome ε ℕ) = .diverge := by
    induction rounds generalizing domain len with
    | zero => rfl
    | succ rounds ih =>
      have hlt : domain < minDomain := hdomain.trans_lt (by decide)
      have hprod : domain * radix ≤ 1 := Nat.mul_le_mul hdomain (Nat.le_of_lt_succ h)
      rw [minLenLoop, if_pos hlt]
      exact ih _ _ ((Nat.min_le_left _ _).trans hprod)
  exact hsmall rounds 1 0 (Nat.le_refl 1)

end Loop

section Gate

variable {C : Crypto} {key value : Text} {A : Alphabet} {forward : Bool}

/-- Runs below the minimum domain pass, whatever FF1 is. -/
theorem fpeOverAlphabet_short (C : Crypto) (key : Text) (forward : Bool)
    (hshort : A.radix ^ (value.filter A.contains).length < minDomain) :
    fpeOverAlphabet C key value A forward = .ok value := by
  rw [fpeOverAlphabet_eq C key value A forward fun hle => absurd hshort (Nat.not_lt.mpr hle),
    alphabetSlots, if_pos hshort, Outcome.map_ok, fill_filter_self]

/-- Any other run is handed to FF1 and rewritten by what it returns. -/
theorem fpeOverAlphabet_long {D : ℕ → List ℕ → Prop} (hpres : Ff1Preserves C D)
    (hD : D A.radix (A.numerals value))
    (hlong : minDomain ≤ A.radix ^ (value.filter A.contains).length) :
    fpeOverAlphabet C key value A forward =
      (fun out => fill A.contains value (A.render out)) <$>
        ff1Apply C key A.radix (A.numerals value) forward := by
  have hrewrite := fpeOverAlphabet_eq C key value A forward fun _ out hout =>
    hpres _ _ _ _ _ hD ((ff1Apply_eq_ok_iff _ _ _ _ _ _).mp hout)
  rw [hrewrite, alphabetSlots, if_neg (Nat.not_lt.mpr hlong), Alphabet.numerals_filter, ← comp_map]
  rfl

end Gate

end VgiMask
