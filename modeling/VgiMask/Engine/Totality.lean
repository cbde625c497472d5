import VgiMask.Engine.TextLaws
import VgiMask.Engine.KeyedCipher

/-!
# The only failure is the empty key

The strict primitives panic on every call that FF1 is not specified for. Replacing the
primitives by the strict ones changes nothing, so every call is one FF1 is specified for;
and no index, slice, subtraction or sum of the engine leaves its range.
-/

namespace VgiMask

open Common

/-- The cipher object that panics outside the domain of FF1. -/
def strictCipher (radix : ℕ) (ff : Ff1Cipher) : Ff1Cipher where
  encrypt := fun tweak nums => if Ff1Domain radix nums then ff.encrypt tweak nums else .panic
  decrypt := fun tweak nums => if Ff1Domain radix nums then ff.decrypt tweak nums else .panic

/-- The primitives that panic on every call FF1 is not specified for. -/
def Crypto.strict (C : Crypto) : Crypto where
  sha256 := C.sha256
  ff1New := fun key radix =>
    if 2 ≤ radix ∧ radix ≤ 65536 then strictCipher radix <$> C.ff1New key radix else .panic

variable {C : Crypto} {key v : Text} {f : Format}

/-- On its domain, strict FF1 is FF1. -/
theorem strict_ff1 (C : Crypto) (key : AesKey) {radix : ℕ} {nums : List ℕ} (forward : Bool)
    (h : Ff1Domain radix nums) : C.strict.ff1 key radix forward nums = C.ff1 key radix forward nums := by
  have hnew : C.strict.ff1New key radix = strictCipher radix <$> C.ff1New key radix := if_pos h.1
  rw [Crypto.ff1, hnew, Crypto.ff1]
  cases C.ff1New key radix with
  | ok ff =>
    cases forward with
    | true => exact if_pos h
    | false => exact if_pos h
  | err e => rfl
  | panic => rfl
  | diverge => rfl

/-- Strict FF1 keeps length and range where FF1 does. -/
theorem strict_preserves (hpres : Ff1Preserves C Ff1Domain) : Ff1Preserves C.strict Ff1Domain := by
  intro key radix forward nums out hD hout
  rw [strict_ff1 C key forward hD] at hout
  exact hpres key radix forward nums out hD hout

/-- Every call for at most `u32::MAX` slots is one FF1 is specified for. -/
theorem fpe_strict (hpres : Ff1Preserves C Ff1Domain) (hlen : (f.slots v).length ≤ u32Max)
    (forward : Bool) : fpe C.strict forward v f key = fpe C forward v f key := by
  by_cases hkey : key = []
  · rw [hkey, fpe_nil_key, fpe_nil_key]
  · have hcov : f.Covers Ff1Domain (f.slots v).length := covers_ff1Domain hlen
    rw [fpe_eq_rebuild hkey hpres hcov, fpe_eq_rebuild hkey (strict_preserves hpres) hcov]
    congr 1
    unfold Format.slotTransform
    cases hblock : f.block (f.slots v) with
    | none => rfl
    | some call =>
      obtain ⟨radix, nums⟩ := call
      dsimp only
      rw [ff1Apply_eq, ff1Apply_eq, strict_ff1 C _ forward (hcov.callsIn radix nums hblock)]
      rfl

/-- The engine fails on the empty key only; it never panics and always returns, and every
call it makes is one FF1 is specified for. -/
theorem fpe_err_iff (C : Crypto) (hacc : Ff1AcceptsExactly C) (hpres : Ff1Preserves C Ff1Domain)
    (v : Text) (f : Format) (key : Text) (forward : Bool) (hlen : (f.slots v).length ≤ u32Max) :
    (∀ e, fpe C forward v f key = .err e ↔ key = [] ∧ e = .emptyKey) ∧
      fpe C forward v f key ≠ .panic ∧ fpe C forward v f key ≠ .diverge ∧
      fpe C.strict forward v f key = fpe C forward v f key := by
  by_cases hkey : key = []
  · have hempty : fpe C forward v f key = .err .emptyKey := by rw [hkey, fpe_nil_key]
    rw [hempty]
    refine ⟨fun e => ?_, nofun, nofun, ?_⟩
    · rw [Outcome.err.injEq]
      exact ⟨fun h => ⟨hkey, h.symm⟩, fun h => h.2.symm⟩
    · rw [hkey, fpe_nil_key]
  · obtain ⟨out, hout⟩ : ∃ out, fpe C forward v f key = .ok out :=
      fpe_returns hkey hacc.accepts hpres (covers_ff1Domain hlen)
    have hstrict : fpe C.strict forward v f key = fpe C forward v f key :=
      fpe_strict hpres hlen forward
    rw [hstrict, hout]
    refine ⟨fun e => ⟨nofun, fun h => absurd h.1 hkey⟩, nofun, nofun, rfl⟩

/-- A card number in multi-byte text goes through FF1 without an error, and is the same when FF1
refuses all that it is not specified for; a too short address is returned, not refused. -/
theorem fpe_err_iff_recorded :
    (fpe recordedCrypto true "é4012 8888-8888.1880é".toList .card "k".toList ≠ .panic ∧
        fpe recordedCrypto.strict true "é4012 8888-8888.1880é".toList .card "k".toList =
          .ok "é5476 7914-6539.6370é".toList) ∧
      fpe recordedCrypto true "ab@x.com".toList .email "k".toList ≠ .panic ∧
      fpe recordedCrypto true "ab@x.com".toList .email "k".toList = .ok "ab@x.com".toList := by
  obtain ⟨-, hcard, -, hstrict⟩ := fpe_err_iff recordedCrypto recordedCrypto_acceptsExactly
    (recordedCrypto_preserves Ff1Domain) "é4012 8888-8888.1880é".toList .card "k".toList true (by decide)
  obtain ⟨-, hshort, -⟩ := fpe_err_iff recordedCrypto recordedCrypto_acceptsExactly
    (recordedCrypto_preserves Ff1Domain) "ab@x.com".toList .email "k".toList true (by decide)
  exact ⟨⟨hcard, hstrict.trans (by decide +kernel)⟩, hshort, by decide⟩

end VgiMask
