import VgiMask.Engine.Crypto
import VgiMask.Common.PartialPermutation
import VgiMask.Common.Sha256

/-!
# Ciphers made of keyed permutations

A permutation of the numeral strings for every key and radix, which keeps length and range, is a
cipher with everything that is assumed of FF1. The recorded instance hashes with SHA-256 and goes
along chains of numeral strings that FF1 maps to each other under the AES keys of four key
strings. On the chains it returns what the crate returns; only their ends are led back to their
heads, and strings on no chain are kept.
-/

namespace VgiMask

open Common

/-- A permutation for every key and radix that keeps the length and the range of numeral strings. -/
structure KeyedPerm where
  perm : AesKey → ℕ → Equiv.Perm (List ℕ)
  length_eq : ∀ key radix nums, (perm key radix nums).length = nums.length
  numerals_iff : ∀ key radix nums, Numerals radix (perm key radix nums) ↔ Numerals radix nums

namespace KeyedPerm

/-- The keyed permutation that goes along chains of strings of one length and in range. -/
def ofChains (chains : AesKey → ℕ → List (List (List ℕ)))
    (huniform : ∀ key radix, ∀ chain ∈ chains key radix, ∀ x ∈ chain, ∀ y ∈ chain,
      x.length = y.length ∧ Numerals radix x) : KeyedPerm where
  perm := fun key radix => alongCycles (chains key radix)
  length_eq := fun key radix =>
    alongCycles_keeps fun chain hchain x hx y hy => (huniform key radix chain hchain x hx y hy).1
  numerals_iff := fun key radix nums => by
    refine iff_of_eq (alongCycles_keeps (fun chain hchain x hx y hy => propext ?_) nums)
    have hrange := huniform key radix chain hchain
    exact iff_of_true (hrange x hx y hy).2 (hrange y hy x hx).2

/-- Apply the permutation, or its inverse to decrypt. -/
def apply (F : KeyedPerm) (key : AesKey) (radix : ℕ) (forward : Bool) (nums : List ℕ) : List ℕ :=
  if forward then F.perm key radix nums else (F.perm key radix).symm nums

/-- The cipher object, which refuses what is outside the domain of FF1. -/
def cipher (F : KeyedPerm) (key : AesKey) (radix : ℕ) : Ff1Cipher where
  encrypt := fun _ nums =>
    if Ff1Domain radix nums then .ok (F.apply key radix true nums) else .err "InvalidForRadix".toList
  decrypt := fun _ nums =>
    if Ff1Domain radix nums then .ok (F.apply key radix false nums) else .err "InvalidForRadix".toList

variable (F : KeyedPerm) (key : AesKey) (radix : ℕ)

/-- Both directions keep the length. -/
theorem length_apply (forward : Bool) (nums : List ℕ) :
    (F.apply key radix forward nums).length = nums.length := by
  cases forward with
  | true => exact F.length_eq key radix nums
  | false =>
    change ((F.perm key radix).symm nums).length = nums.length
    rw [← F.length_eq key radix, Equiv.apply_symm_apply]

/-- Both directions keep the range. -/
theorem numerals_apply_iff (forward : Bool) (nums : List ℕ) :
    Numerals radix (F.apply key radix forward nums) ↔ Numerals radix nums := by
  cases forward with
  | true => exact F.numerals_iff key radix nums
  | false =>
    change Numerals radix ((F.perm key radix).symm nums) ↔ Numerals radix nums
    rw [← F.numerals_iff key radix, Equiv.apply_symm_apply]

/-- Both directions keep the domain. -/
theorem domain_apply_iff (forward : Bool) (nums : List ℕ) :
    Ff1Domain radix (F.apply key radix forward nums) ↔ Ff1Domain radix nums := by
  rw [Ff1Domain, Ff1Domain, F.numerals_apply_iff, F.length_apply]

/-- The other direction brings every numeral string back. -/
theorem apply_not_apply (forward : Bool) (nums : List ℕ) :
    F.apply key radix (!forward) (F.apply key radix forward nums) = nums := by
  cases forward with
  | true => exact (F.perm key radix).symm_apply_apply nums
  | false => exact (F.perm key radix).apply_symm_apply nums

end KeyedPerm

/-- The crates with a hash and the cipher of a keyed permutation. -/
def keyedCrypto (hash : List UInt8 → Vector UInt8 32) (F : KeyedPerm) : Crypto where
  sha256 := hash
  ff1New := fun key radix =>
    if 2 ≤ radix ∧ radix ≤ 65536 then .ok (F.cipher key radix) else .err "InvalidRadix".toList

section Keyed

variable (hash : List UInt8 → Vector UInt8 32) (F : KeyedPerm)

/-- On its domain the cipher permutes. -/
theorem keyedCrypto_ff1 {radix : ℕ} {nums : List ℕ} (key : AesKey) (forward : Bool)
    (h : Ff1Domain radix nums) :
    (keyedCrypto hash F).ff1 key radix forward nums = .ok (F.apply key radix forward nums) := by
  have hnew : (keyedCrypto hash F).ff1New key radix = .ok (F.cipher key radix) := if_pos h.1
  rw [Crypto.ff1, hnew, Outcome.ok_bind]
  cases forward
  · exact if_pos h
  · exact if_pos h

/-- Outside its domain the cipher reports an error. -/
theorem keyedCrypto_refuses {radix : ℕ} {nums : List ℕ} (key : AesKey) (forward : Bool)
    (h : ¬ Ff1Domain radix nums) : ∃ e, (keyedCrypto hash F).ff1 key radix forward nums = .err e := by
  by_cases hradix : 2 ≤ radix ∧ radix ≤ 65536
  · have hnew : (keyedCrypto hash F).ff1New key radix = .ok (F.cipher key radix) := if_pos hradix
    rw [Crypto.ff1, hnew, Outcome.ok_bind]
    cases forward
    · exact ⟨_, if_neg h⟩
    · exact ⟨_, if_neg h⟩
  · have hnew : (keyedCrypto hash F).ff1New key radix = .err "InvalidRadix".toList := if_neg hradix
    exact ⟨_, by rw [Crypto.ff1, hnew, Outcome.err_bind]⟩

/-- What is returned is the permuted string, which comes from the domain. -/
theorem keyedCrypto_eq_ok {key : AesKey} {radix : ℕ} {forward : Bool} {nums out : List ℕ}
    (h : (keyedCrypto hash F).ff1 key radix forward nums = .ok out) :
    Ff1Domain radix nums ∧ F.apply key radix forward nums = out := by
  by_cases hdomain : Ff1Domain radix nums
  · rw [keyedCrypto_ff1 hash F key forward hdomain] at h
    exact ⟨hdomain, Outcome.ok.inj h⟩
  · obtain ⟨e, he⟩ := keyedCrypto_refuses hash F key forward hdomain
    cases h.symm.trans he

/-- The cipher returns a value or reports an error. -/
theorem keyedCrypto_answers (D : ℕ → List ℕ → Prop) : Ff1Answers (keyedCrypto hash F) D := by
  intro key radix forward nums _
  by_cases h : Ff1Domain radix nums
  · rw [keyedCrypto_ff1 hash F key forward h]
    exact ⟨nofun, nofun⟩
  · obtain ⟨e, he⟩ := keyedCrypto_refuses hash F key forward h
    rw [he]
    exact ⟨nofun, nofun⟩

/-- The cipher accepts exactly the domain of FF1. -/
theorem keyedCrypto_acceptsExactly : Ff1AcceptsExactly (keyedCrypto hash F) := by
  constructor
  · intro key radix h2 hmax
    exact ⟨F.cipher key radix, if_pos ⟨h2, hmax⟩⟩
  · intro key radix forward nums _ _
    constructor
    · intro ⟨out, hout⟩
      exact (keyedCrypto_eq_ok hash F hout).1
    · intro h
      exact ⟨_, keyedCrypto_ff1 hash F key forward h⟩

/-- The cipher keeps length and range wherever it returns a value. -/
theorem keyedCrypto_preserves (D : ℕ → List ℕ → Prop) : Ff1Preserves (keyedCrypto hash F) D := by
  intro key radix forward nums out _ hout
  obtain ⟨hdomain, rfl⟩ := keyedCrypto_eq_ok hash F hout
  exact ⟨F.length_apply key radix forward nums, (F.numerals_apply_iff key radix forward nums).mpr hdomain.2.1⟩

/-- The two directions of the cipher are inverse. -/
theorem keyedCrypto_inverse (D : ℕ → List ℕ → Prop) : Ff1Inverse (keyedCrypto hash F) D := by
  intro key radix forward nums out _ hout
  obtain ⟨hdomain, rfl⟩ := keyedCrypto_eq_ok hash F hout
  rw [keyedCrypto_ff1 hash F key (!forward) ((F.domain_apply_iff key radix forward nums).mpr hdomain),
    F.apply_not_apply]

/-- The cipher separates numeral strings. -/
theorem keyedCrypto_injective (D : ℕ → List ℕ → Prop) : Ff1Injective (keyedCrypto hash F) D := by
  intro key radix nums nums' out hD hD' hout hout'
  have hback := keyedCrypto_inverse hash F D key radix true nums out hD hout
  have hback' := keyedCrypto_inverse hash F D key radix true nums' out hD' hout'
  exact Outcome.ok.inj (hback.symm.trans hback')

end Keyed

section Recorded

/-- The AES key of the key string `k`. -/
def recordedDigest : Vector UInt8 32 :=
  ⟨#[153, 3, 233, 98, 233, 205, 112, 33, 216, 26, 239, 8, 21, 94, 18, 16, 97, 225, 182, 181, 10,
    166, 118, 60, 84, 56, 10, 105, 24, 38, 24, 31], rfl⟩

/-- The AES key of the key string `old`. -/
def oldDigest : Vector UInt8 32 :=
  ⟨#[169, 125, 42, 53, 23, 68, 16, 61, 45, 207, 16, 109, 206, 116, 69, 46, 72, 4, 252, 20, 46, 3,
    93, 148, 15, 130, 217, 218, 110, 94, 158, 104], rfl⟩

/-- The AES key of the key string `new`. -/
def newDigest : Vector UInt8 32 :=
  ⟨#[119, 1, 238, 204, 141, 25, 92, 251, 35, 64, 234, 235, 75, 107, 161, 0, 101, 102, 56, 103, 9,
    12, 0, 175, 76, 67, 149, 5, 182, 153, 255, 165], rfl⟩

/-- The AES key of the key string `retired`. -/
def retiredDigest : Vector UInt8 32 :=
  ⟨#[86, 43, 15, 236, 44, 27, 198, 42, 236, 249, 171, 104, 65, 77, 194, 190, 150, 48, 56, 82, 12,
    202, 103, 202, 184, 242, 153, 99, 160, 144, 230, 112], rfl⟩

/-- For an AES key and a radix, a chain of numeral strings each of which FF1 maps to the next. -/
def recordedChains : List ((AesKey × ℕ) × List (List ℕ)) := [
  ((recordedDigest, 10), [[4, 0, 1, 2, 8, 8, 8, 8, 8, 8, 8, 8, 1, 8, 8],
    [5, 4, 7, 6, 7, 9, 1, 4, 6, 5, 3, 9, 6, 3, 7], [7, 9, 6, 9, 7, 6, 7, 8, 0, 8, 9, 3, 9, 3, 2]]),
  ((recordedDigest, 62), [[10, 21, 18, 12, 14], [27, 31, 39, 32, 10], [60, 52, 11, 56, 51]]),
  ((oldDigest, 10), [[4, 0, 1, 2, 8, 8, 8, 8, 8, 8, 8, 8, 1, 8, 8],
    [3, 9, 1, 6, 3, 7, 4, 5, 4, 0, 5, 2, 1, 1, 5], [3, 1, 4, 8, 6, 3, 9, 7, 5, 1, 5, 6, 2, 2, 6]]),
  ((oldDigest, 10), [[7, 1, 4, 8, 6, 5, 5, 5, 8, 3, 1, 4, 5, 4, 3],
    [5, 4, 7, 6, 7, 9, 1, 4, 6, 5, 3, 9, 6, 3, 7], [0, 6, 0, 9, 4, 9, 0, 9, 2, 2, 1, 1, 0, 6, 2]]),
  ((oldDigest, 62), [[50, 37, 16, 7, 23, 40, 11, 30, 59], [27, 31, 39, 32, 10, 33, 12, 24, 22],
    [6, 46, 8, 45, 0, 30, 1, 50, 38]]),
  ((newDigest, 10), [[7, 1, 4, 8, 6, 5, 5, 5, 8, 3, 1, 4, 5, 4, 3],
    [8, 9, 5, 7, 5, 1, 6, 7, 1, 8, 5, 3, 3, 0, 4], [6, 7, 6, 5, 7, 3, 6, 1, 3, 7, 9, 7, 1, 6, 0]]),
  ((retiredDigest, 10), [[4, 0, 1, 2, 8, 8, 8, 8, 8, 8, 8, 8, 1, 8, 8],
    [8, 7, 2, 6, 8, 8, 5, 7, 1, 8, 9, 6, 1, 7, 4], [2, 1, 7, 8, 0, 1, 6, 8, 2, 5, 4, 6, 8, 4, 7]])]

/-- The recorded chains of a key and a radix. -/
def chainsOf (key : AesKey) (radix : ℕ) : List (List (List ℕ)) :=
  (recordedChains.filter fun entry => entry.1 = (key, radix)).map Prod.snd

/-- The strings of a chain have one length and are in range. -/
theorem recordedChains_uniform : ∀ entry ∈ recordedChains, ∀ x ∈ entry.2, ∀ y ∈ entry.2,
    x.length = y.length ∧ Numerals entry.1.2 x := by
  decide +kernel

/-- The strings of a chain of a radix have one length and are in its range. -/
theorem chainsOf_uniform (key : AesKey) (radix : ℕ) : ∀ chain ∈ chainsOf key radix,
    ∀ x ∈ chain, ∀ y ∈ chain, x.length = y.length ∧ Numerals radix x := by
  intro chain h
  obtain ⟨entry, hentry, rfl⟩ := List.mem_map.mp h
  obtain ⟨hmem, hkey⟩ := List.mem_filter.mp hentry
  have hkey : entry.1 = (key, radix) := of_decide_eq_true hkey
  have huniform := recordedChains_uniform entry hmem
  rw [hkey] at huniform
  exact huniform

/-- FF1 on the recorded chains. -/
def recordedPerm : KeyedPerm := .ofChains chainsOf chainsOf_uniform

/-- SHA-256, and FF1 on the recorded chains. -/
def recordedCrypto : Crypto := keyedCrypto sha256 recordedPerm

/-- The recorded crates accept exactly the domain of FF1. -/
theorem recordedCrypto_acceptsExactly : Ff1AcceptsExactly recordedCrypto :=
  keyedCrypto_acceptsExactly sha256 recordedPerm

/-- The recorded crates accept the domain of FF1. -/
theorem recordedCrypto_accepts : Ff1Accepts recordedCrypto Ff1Domain :=
  recordedCrypto_acceptsExactly.accepts

/-- The recorded crates accept card blocks. -/
theorem recordedCrypto_accepts_card : Ff1Accepts recordedCrypto CardDomain :=
  fun key radix forward nums h => recordedCrypto_accepts key radix forward nums h.ff1Domain

/-- The recorded crates return a value or report an error. -/
theorem recordedCrypto_answers (D : ℕ → List ℕ → Prop) : Ff1Answers recordedCrypto D :=
  keyedCrypto_answers sha256 recordedPerm D

/-- The recorded crates keep length and range. -/
theorem recordedCrypto_preserves (D : ℕ → List ℕ → Prop) : Ff1Preserves recordedCrypto D :=
  keyedCrypto_preserves sha256 recordedPerm D

/-- The two directions of the recorded crates are inverse. -/
theorem recordedCrypto_inverse (D : ℕ → List ℕ → Prop) : Ff1Inverse recordedCrypto D :=
  keyedCrypto_inverse sha256 recordedPerm D

/-- The recorded crates separate numeral strings. -/
theorem recordedCrypto_injective (D : ℕ → List ℕ → Prop) : Ff1Injective recordedCrypto D :=
  keyedCrypto_injective sha256 recordedPerm D

end Recorded

end VgiMask
