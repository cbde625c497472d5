import VgiMask.Engine.Token
import VgiMask.Engine.Fpe
import VgiMask.Engine.KeyedCipher

/-!
# Which keys the tokens keep apart

A key string enters the keyed digest behind a fixed prefix. Up to the block length it is only
padded with zero bytes, and a zero byte is the encoding of a symbol that a key may end with:
two short keys that differ in trailing zero symbols have one block and one token for every
value. All other keys have different blocks, or the digest of a long key coincides with the
other key's. The keys of the reversible functions are hashed first and have no such pairs.
-/

namespace VgiMask

open Common

/-- The block that enters the keyed digest for a key string. -/
def tokenKeyBlock (C : Crypto) (key : Text) : List UInt8 := keyBlock (sha256Bytes C) 64 (tokenKey key)

/-- The prefixed key is longer than the block. -/
def LongKey (key : Text) : Prop := 64 < (tokenKey key).length

instance (key : Text) : Decidable (LongKey key) := inferInstanceAs (Decidable (64 < _))

/-- The keys differ at most in the zero symbols they end with. -/
def SameButTrailingNul (k k' : Text) : Prop := k.rdropWhile (· == nul) = k'.rdropWhile (· == nul)

instance (k k' : Text) : Decidable (SameButTrailingNul k k') := inferInstanceAs (Decidable (_ = _))

/-- A long key's digest, padded, is the block of the other key. -/
def DigestCoincides (C : Crypto) (k k' : Text) : Prop :=
  LongKey k ∧ sha256Bytes C (tokenKey k) ++ List.replicate 32 0 = tokenKeyBlock C k' ∨
    LongKey k' ∧ sha256Bytes C (tokenKey k') ++ List.replicate 32 0 = tokenKeyBlock C k

/-- The message whose digest is cut to the token. -/
def tokenMessage (C : Crypto) (value key : Text) : List UInt8 :=
  hmacOuter (sha256Bytes C) 64 (tokenKey key) (utf8Bytes value)

/-- The tokens of a value agree because different messages agree in half of their digests. -/
def TokenCollision (C : Crypto) (value k k' : Text) : Prop :=
  tokenMessage C value k ≠ tokenMessage C value k' ∧
    (sha256Bytes C (tokenMessage C value k)).take 16 = (sha256Bytes C (tokenMessage C value k')).take 16

/-- The keys have different blocks and different tokens unless digests coincide. -/
def KeysSeparated (C : Crypto) (k k' : Text) : Prop :=
  (tokenKeyBlock C k = tokenKeyBlock C k' → DigestCoincides C k k') ∧
    ∀ value, token C value k = token C value k' →
      DigestCoincides C k k' ∨ TokenCollision C value k k'

/-- The prefix does not end in a zero byte, so the trailing zero bytes are the key's. -/
theorem tokenKey_rdropWhile (key : Text) :
    (tokenKey key).rdropWhile (· == 0) = tokenKey (key.rdropWhile (· == nul)) := by
  rw [tokenKey, utf8Bytes_rdropWhile, rdropWhile_append_of_self (by decide), tokenKey]

/-- Different key strings are different key bytes. -/
theorem tokenKey_injective : Function.Injective tokenKey :=
  utf8Bytes_injective.comp (List.append_right_injective _)

/-- A key that is not long is padded. -/
theorem tokenKeyBlock_short (C : Crypto) {key : Text} (hkey : ¬ LongKey key) :
    tokenKeyBlock C key = tokenKey key ++ List.replicate (64 - (tokenKey key).length) 0 :=
  keyBlock_of_le _ _ (Nat.le_of_not_lt hkey)

/-- A long key is replaced by its digest. -/
theorem tokenKeyBlock_long (C : Crypto) {key : Text} (hkey : LongKey key) :
    tokenKeyBlock C key = sha256Bytes C (tokenKey key) ++ List.replicate 32 0 := by
  rw [tokenKeyBlock, keyBlock, if_neg (Nat.not_le_of_lt hkey), sha256Bytes_length]

/-- Two short keys share a block when only trailing zero symbols tell them apart. -/
theorem tokenKeyBlock_eq_iff (C : Crypto) {k k' : Text} (hk : ¬ LongKey k) (hk' : ¬ LongKey k') :
    tokenKeyBlock C k = tokenKeyBlock C k' ↔ SameButTrailingNul k k' := by
  rw [tokenKeyBlock_short C hk, tokenKeyBlock_short C hk',
    padded_eq_iff (Nat.le_of_not_lt hk) (Nat.le_of_not_lt hk'), tokenKey_rdropWhile,
    tokenKey_rdropWhile, tokenKey_injective.eq_iff, SameButTrailingNul]

/-- When one of two keys with one block is long, its digest coincides with the other's block. -/
theorem digestCoincides_of_long {C : Crypto} {k k' : Text}
    (hblock : tokenKeyBlock C k = tokenKeyBlock C k') (hlong : LongKey k ∨ LongKey k') :
    DigestCoincides C k k' := by
  rcases hlong with hk | hk'
  · left
    exact ⟨hk, by rw [← tokenKeyBlock_long C hk, hblock]⟩
  · right
    exact ⟨hk', by rw [← tokenKeyBlock_long C hk', hblock]⟩

/-- Keys with one block have one token for every value. -/
theorem token_congr_block (C : Crypto) {k k' : Text} (hk : k ≠ []) (hk' : k' ≠ [])
    (hblock : tokenKeyBlock C k = tokenKeyBlock C k') (value : Text) :
    token C value k = token C value k' := by
  rw [token_eq_hexEncode C value hk, token_eq_hexEncode C value hk', hmacSha256, hmacSha256,
    hmac_congr_block _ _ hblock]

/-- Equal tokens under different blocks come from different messages. -/
theorem tokenCollision_of_token_eq {C : Crypto} {value k k' : Text}
    (hblock : tokenKeyBlock C k ≠ tokenKeyBlock C k') (htoken : token C value k = token C value k') :
    TokenCollision C value k k' := by
  have hmessage : tokenMessage C value k ≠ tokenMessage C value k' := by
    intro h
    exact hblock (keyBlock_eq_of_outer _ _ (fun m => by rw [sha256Bytes_length]; decide) h)
  refine ⟨hmessage, ?_⟩
  by_cases hk : k = []
  · by_cases hk' : k' = []
    · exact absurd (by rw [hk, hk']) hblock
    · rw [hk, token_nil_key, token_eq_hexEncode C value hk'] at htoken
      cases htoken
  by_cases hk' : k' = []
  · rw [hk', token_nil_key, token_eq_hexEncode C value hk] at htoken
    cases htoken
  rw [token_eq_hexEncode C value hk, token_eq_hexEncode C value hk'] at htoken
  have hhalves := hexEncode_injective (Outcome.ok.inj htoken)
  rwa [hmacSha256, hmac_eq_hash_outer, hmacSha256, hmac_eq_hash_outer] at hhalves

/-- Tokens separate exactly the keys of which one is long or that differ before the end. -/
theorem keysSeparated_iff (C : Crypto) (k k' : Text) :
    KeysSeparated C k k' ↔ ¬ (¬ LongKey k ∧ ¬ LongKey k' ∧ SameButTrailingNul k k') := by
  constructor
  · intro ⟨hsep, _⟩ ⟨hk, hk', hsame⟩
    rcases hsep ((tokenKeyBlock_eq_iff C hk hk').mpr hsame) with ⟨hlong, _⟩ | ⟨hlong, _⟩
    · exact hk hlong
    · exact hk' hlong
  · intro hcond
    have hblocks : tokenKeyBlock C k = tokenKeyBlock C k' → DigestCoincides C k k' := by
      intro hblock
      by_cases hlong : LongKey k ∨ LongKey k'
      · exact digestCoincides_of_long hblock hlong
      · have hshort := not_or.mp hlong
        exact absurd ⟨hshort.1, hshort.2, (tokenKeyBlock_eq_iff C hshort.1 hshort.2).mp hblock⟩ hcond
    refine ⟨hblocks, ?_⟩
    intro value htoken
    by_cases hblock : tokenKeyBlock C k = tokenKeyBlock C k'
    · exact Or.inl (hblocks hblock)
    · exact Or.inr (tokenCollision_of_token_eq hblock htoken)

/-- The key `k` and the key `k` with a zero symbol after it are one key. -/
theorem keys_collide :
    "k".toList ≠ "k".toList ++ [nul] ∧ "k".toList ≠ [] ∧ "k".toList ++ [nul] ≠ [] ∧
      (tokenKey ("k".toList ++ [nul])).length = 20 ∧
      tokenKeyBlock recordedCrypto "k".toList = tokenKeyBlock recordedCrypto ("k".toList ++ [nul]) ∧
      token recordedCrypto "acct-42".toList "k".toList =
        token recordedCrypto "acct-42".toList ("k".toList ++ [nul]) ∧
      token recordedCrypto "acct-42".toList "k".toList =
        .ok "155f334b4c075f9274019b1ff4e7c2df".toList ∧
      ¬ KeysSeparated recordedCrypto "k".toList ("k".toList ++ [nul]) := by
  have hblock : tokenKeyBlock recordedCrypto "k".toList =
      tokenKeyBlock recordedCrypto ("k".toList ++ [nul]) :=
    (tokenKeyBlock_eq_iff recordedCrypto (by decide) (by decide)).mpr (by decide)
  refine ⟨by decide, by decide, by decide, by decide, hblock,
    token_congr_block recordedCrypto (by decide) (by decide) hblock _, by decide +kernel, ?_⟩
  intro ⟨hsep, _⟩
  rcases hsep hblock with ⟨hlong, _⟩ | ⟨hlong, _⟩
  · exact absurd hlong (by decide)
  · exact absurd hlong (by decide)

/-- The reversible functions hash their key first: two keys with one AES key are a collision. -/
theorem aesKey_collision {C : Crypto} {k k' : Text} (hne : k ≠ k') (h : aesKey C k = aesKey C k') :
    utf8Bytes "vgi-mask:fpe:v1".toList ++ utf8Bytes k ≠
        utf8Bytes "vgi-mask:fpe:v1".toList ++ utf8Bytes k' ∧
      C.sha256 (utf8Bytes "vgi-mask:fpe:v1".toList ++ utf8Bytes k) =
        C.sha256 (utf8Bytes "vgi-mask:fpe:v1".toList ++ utf8Bytes k') := by
  refine ⟨?_, h⟩
  intro hmessage
  exact hne (utf8Bytes_injective (List.append_cancel_left hmessage))

end VgiMask
