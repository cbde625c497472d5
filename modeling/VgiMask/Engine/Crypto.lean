import VgiMask.Engine.Names
import VgiMask.Common.Utf8

/-!
# The third-party primitives

The SHA-256 and FF1 implementations are parameters. A cipher object is made for one AES
key and one radix and maps numeral strings under a tweak. What is assumed of FF1 is stated
relative to the numeral strings a result needs: it accepts them, it keeps their length and
range, it is inverted by the other direction, it separates them.
-/

namespace VgiMask

open Common

/-- A 256-bit AES key. -/
abbrev AesKey := Vector UInt8 32

/-- A cipher object; a reported error is kept as its debug text. -/
structure Ff1Cipher where
  encrypt : List UInt8 → List ℕ → Outcome Text (List ℕ)
  decrypt : List UInt8 → List ℕ → Outcome Text (List ℕ)

/-- The cryptographic crates. -/
structure Crypto where
  sha256 : List UInt8 → Vector UInt8 32
  ff1New : AesKey → ℕ → Outcome Text Ff1Cipher

/-- The largest length of a numeral string. -/
def u32Max : ℕ := 2 ^ 32 - 1

/-- One use of FF1 with the empty tweak, in either direction. -/
def Crypto.ff1 (C : Crypto) (key : AesKey) (radix : ℕ) (forward : Bool) (nums : List ℕ) :
    Outcome Text (List ℕ) := do
  let ff ← C.ff1New key radix
  if forward then ff.encrypt [] nums else ff.decrypt [] nums

/-- All numerals are below the radix. -/
def Numerals (radix : ℕ) (nums : List ℕ) : Prop := ∀ d ∈ nums, d < radix

instance (radix : ℕ) (nums : List ℕ) : Decidable (Numerals radix nums) :=
  inferInstanceAs (Decidable (∀ d ∈ nums, d < radix))

/-- The numeral strings FF1 is specified for. -/
def Ff1Domain (radix : ℕ) (nums : List ℕ) : Prop :=
  (2 ≤ radix ∧ radix ≤ 65536) ∧ Numerals radix nums ∧ 1000000 ≤ radix ^ nums.length ∧
    nums.length ≤ u32Max

instance (radix : ℕ) (nums : List ℕ) : Decidable (Ff1Domain radix nums) :=
  inferInstanceAs (Decidable (_ ∧ _))

/-- The numeral strings of the card profile: fifteen decimal numerals. -/
def CardDomain (radix : ℕ) (nums : List ℕ) : Prop :=
  radix = 10 ∧ Numerals radix nums ∧ nums.length = 15

/-- FF1 accepts the numeral strings of a domain. -/
def Ff1Accepts (C : Crypto) (D : ℕ → List ℕ → Prop) : Prop :=
  ∀ key radix forward nums, D radix nums → ∃ out, C.ff1 key radix forward nums = .ok out

/-- FF1 returns or reports an error on a domain. -/
def Ff1Answers (C : Crypto) (D : ℕ → List ℕ → Prop) : Prop :=
  ∀ key radix forward nums, D radix nums → (C.ff1 key radix forward nums).Answers

/-- FF1 keeps the length and the numeral range on a domain. -/
def Ff1Preserves (C : Crypto) (D : ℕ → List ℕ → Prop) : Prop :=
  ∀ key radix forward nums out, D radix nums → C.ff1 key radix forward nums = .ok out →
    out.length = nums.length ∧ Numerals radix out

/-- The two directions of FF1 are inverse on a domain. -/
def Ff1Inverse (C : Crypto) (D : ℕ → List ℕ → Prop) : Prop :=
  ∀ key radix forward nums out, D radix nums → C.ff1 key radix forward nums = .ok out →
    C.ff1 key radix (!forward) out = .ok nums

/-- FF1 encryption separates the numeral strings of a domain. -/
def Ff1Injective (C : Crypto) (D : ℕ → List ℕ → Prop) : Prop :=
  ∀ key radix nums nums' out, D radix nums → D radix nums' →
    C.ff1 key radix true nums = .ok out → C.ff1 key radix true nums' = .ok out → nums = nums'

/-- FF1 returns a value exactly on its domain, for every radix it can be made for. -/
def Ff1AcceptsExactly (C : Crypto) : Prop :=
  (∀ key radix, 2 ≤ radix → radix ≤ 65536 → ∃ ff, C.ff1New key radix = .ok ff) ∧
    ∀ key radix forward nums, 2 ≤ radix → radix ≤ 65536 →
      ((∃ out, C.ff1 key radix forward nums = .ok out) ↔ Ff1Domain radix nums)

/-- Fifteen decimal numerals lie in the domain of FF1. -/
theorem CardDomain.ff1Domain {radix : ℕ} {nums : List ℕ} (h : CardDomain radix nums) :
    Ff1Domain radix nums := by
  obtain ⟨rfl, hnums, hlen⟩ := h
  exact ⟨⟨by decide, by decide⟩, hnums, by rw [hlen]; decide, by rw [hlen]; decide⟩

/-- A cipher that keeps the shape of all numerals keeps it on the domain of FF1. -/
theorem Ff1Preserves.ff1Domain {C : Crypto} (h : Ff1Preserves C Numerals) : Ff1Preserves C Ff1Domain :=
  fun key radix forward nums out hD => h key radix forward nums out hD.2.1

/-- A cipher that accepts exactly its domain accepts its domain. -/
theorem Ff1AcceptsExactly.accepts {C : Crypto} (h : Ff1AcceptsExactly C) : Ff1Accepts C Ff1Domain :=
  fun key radix forward nums hD => (h.2 key radix forward nums hD.1.1 hD.1.2).mpr hD

end VgiMask
