import VgiMask.Engine.KeySeparation
import VgiMask.Engine.TextLaws

/-!
# What is hashed for tokens and for keys

SHA-256 makes the AES keys of the reversible functions, and it is the hash under the keyed
digest of a token. The two uses read it at different inputs, since an AES key's input begins
with its own prefix and the masks of the keyed digest change the prefix of the token key. Only
the digest that stands for a long token key could read as the prefix. Two tokens agree when the
values and the key blocks do; any other agreement is a collision of two named inputs.
-/

namespace VgiMask

open Common

/-- The prefix of the hash inputs that make AES keys. -/
def aesPrefix : List UInt8 := utf8Bytes "vgi-mask:fpe:v1".toList

/-- The prefix of the token keys. -/
def tokenPrefix : List UInt8 := utf8Bytes "vgi-mask:token:v1:".toList

/-- The hash inputs that make AES keys. -/
def AesMessage (message : List UInt8) : Prop := ∃ key : Text, message = aesPrefix ++ utf8Bytes key

/-- The digest reads as the prefix of an AES key's input under one of the two masks. -/
def MimicsPrefix (digest : List UInt8) : Prop :=
  aesPrefix <+: digest.map (· ^^^ 0x36) ∨ aesPrefix <+: digest.map (· ^^^ 0x5c)

instance (digest : List UInt8) : Decidable (MimicsPrefix digest) :=
  inferInstanceAs (Decidable (_ ∨ _))

/-- The message of the inner hash of a token. -/
def innerMessage (C : Crypto) (value key : Text) : List UInt8 :=
  hmacInner (sha256Bytes C) 64 (tokenKey key) (utf8Bytes value)

/-- The inner hashes of two tokens agree on different messages. -/
def InnerCollision (C : Crypto) (v k w k' : Text) : Prop :=
  innerMessage C v k ≠ innerMessage C w k' ∧
    sha256Bytes C (innerMessage C v k) = sha256Bytes C (innerMessage C w k')

/-- The outer hashes of two tokens agree in the half that is shown, on different messages. -/
def OuterCollision (C : Crypto) (v k w k' : Text) : Prop :=
  tokenMessage C v k ≠ tokenMessage C w k' ∧
    (sha256Bytes C (tokenMessage C v k)).take 16 = (sha256Bytes C (tokenMessage C w k')).take 16

section Tokens

variable {C : Crypto} {v w k k' : Text}

/-- A digest fits the block. -/
theorem sha256Bytes_le (C : Crypto) (message : List UInt8) : (sha256Bytes C message).length ≤ 64 := by
  rw [sha256Bytes_length]
  decide

/-- Two tokens agree when the shown halves of their outer hashes do. -/
theorem token_eq_token_iff (hk : k ≠ []) (hk' : k' ≠ []) :
    token C v k = token C w k' ↔
      (sha256Bytes C (tokenMessage C v k)).take 16 = (sha256Bytes C (tokenMessage C w k')).take 16 := by
  rw [token_eq_hexEncode C v hk, token_eq_hexEncode C w hk', Outcome.ok.injEq,
    hexEncode_injective.eq_iff, hmacSha256, hmac_eq_hash_outer, hmacSha256, hmac_eq_hash_outer]
  rfl

/-- Two tokens agree for one value under one key block, or through a collision. -/
theorem token_eq_token_cases (hk : k ≠ []) (hk' : k' ≠ []) :
    token C v k = token C w k' ↔
      (v = w ∧ tokenKeyBlock C k = tokenKeyBlock C k') ∨
        (tokenKeyBlock C k = tokenKeyBlock C k' ∧ InnerCollision C v k w k') ∨
          OuterCollision C v k w k' := by
  have houter : tokenMessage C v k = tokenMessage C w k' ↔
      tokenKeyBlock C k = tokenKeyBlock C k' ∧
        sha256Bytes C (innerMessage C v k) = sha256Bytes C (innerMessage C w k') :=
    hmacOuter_eq_iff (sha256Bytes_le C)
  have hinner : innerMessage C v k = innerMessage C w k' ↔
      tokenKeyBlock C k = tokenKeyBlock C k' ∧ v = w := by
    rw [innerMessage, innerMessage, hmacInner_eq_iff (sha256Bytes_le C), utf8Bytes_injective.eq_iff]
    rfl
  rw [token_eq_token_iff hk hk']
  constructor
  · intro h
    by_cases hmessage : tokenMessage C v k = tokenMessage C w k'
    · obtain ⟨hblock, hdigest⟩ := houter.mp hmessage
      by_cases hvw : v = w
      · exact .inl ⟨hvw, hblock⟩
      · exact .inr (.inl ⟨hblock, fun hsame => hvw (hinner.mp hsame).2, hdigest⟩)
    · exact .inr (.inr ⟨hmessage, h⟩)
  · rintro (⟨hvw, hblock⟩ | ⟨hblock, -, hdigest⟩ | ⟨-, h⟩)
    · rw [houter.mpr ⟨hblock, congrArg _ (hinner.mpr ⟨hblock, hvw⟩)⟩]
    · rw [houter.mpr ⟨hblock, hdigest⟩]
    · exact h

end Tokens

section Separation

variable {C : Crypto} {key value : Text}

/-- The reversible functions depend on a key and on the hash through the AES key. -/
theorem fpe_congr_aesKey {C' : Crypto} {key' : Text} (hnew : C'.ff1New = C.ff1New)
    (haes : aesKey C' key' = aesKey C key) (hkey : key ≠ []) (hkey' : key' ≠ []) (forward : Bool)
    (v : Text) (f : Format) : fpe C' forward v f key' = fpe C forward v f key := by
  have happly (radix : ℕ) (nums : List ℕ) :
      ff1Apply C' key' radix nums forward = ff1Apply C key radix nums forward := by
    rw [ff1Apply, ff1Apply, hnew, haes]
  have hover (value : Text) (A : Alphabet) :
      fpeOverAlphabet C' key' value A forward = fpeOverAlphabet C key value A forward := by
    simp only [fpeOverAlphabet, happly]
  rw [fpe_eq_dispatch hkey', fpe_eq_dispatch hkey]
  cases f with
  | digits | alnum | ssn => exact hover v _
  | email => simp only [fpeDispatch, fpeEmail, hover]
  | card => simp only [fpeDispatch, fpeCard, hover, happly]

/-- An input that begins otherwise makes no AES key. -/
theorem not_aesMessage_append {front : List UInt8} (hlen : 15 ≤ front.length)
    (hfront : ¬ aesPrefix <+: front) (rest : List UInt8) : ¬ AesMessage (front ++ rest) := by
  intro ⟨key, hmessage⟩
  apply hfront
  have haes : aesPrefix <+: front ++ rest := ⟨utf8Bytes key, hmessage.symm⟩
  exact List.prefix_of_prefix_length_le haes (List.prefix_append front rest) hlen

/-- A token key begins with the prefix of the token keys. -/
theorem tokenKey_eq (key : Text) : tokenKey key = tokenPrefix ++ utf8Bytes key :=
  utf8Bytes_append _ _

/-- A token key makes no AES key. -/
theorem not_aesMessage_tokenKey (key : Text) : ¬ AesMessage (tokenKey key) := by
  rw [tokenKey_eq]
  exact not_aesMessage_append (by decide) (by decide) _

/-- A masked key block makes no AES key, unless it is the digest of a long key and reads so. -/
theorem not_aesMessage_masked (hlong : LongKey key → ¬ MimicsPrefix (sha256Bytes C (tokenKey key)))
    {mask : UInt8} (hmask : mask = 0x36 ∨ mask = 0x5c) (rest : List UInt8) :
    ¬ AesMessage ((tokenKeyBlock C key).map (· ^^^ mask) ++ rest) := by
  by_cases hkey : LongKey key
  · rw [tokenKeyBlock_long C hkey, List.map_append, List.append_assoc]
    apply not_aesMessage_append
    · rw [List.length_map, sha256Bytes_length]
      decide
    · intro hprefix
      apply hlong hkey
      rcases hmask with rfl | rfl
      · exact .inl hprefix
      · exact .inr hprefix
  · rw [tokenKeyBlock_short C hkey, tokenKey_eq, List.append_assoc, List.map_append, List.append_assoc]
    apply not_aesMessage_append
    · rw [List.length_map]
      decide
    · rcases hmask with rfl | rfl <;> decide

end Separation

/-- The AES keys and the tokens read SHA-256 at different inputs: the reversible functions do not
change when the hash changes anywhere else than at their own inputs, and the tokens do not
change when it changes only there, unless the digest of a long token key reads as the other
prefix. -/
theorem hash_inputs_apart (C : Crypto) (hash : List UInt8 → Vector UInt8 32) :
    ((∀ m, AesMessage m → hash m = C.sha256 m) → ∀ (forward : Bool) (v : Text) (f : Format) (key : Text),
        fpe { C with sha256 := hash } forward v f key = fpe C forward v f key) ∧
      ((∀ m, ¬ AesMessage m → hash m = C.sha256 m) → ∀ value key : Text,
        (LongKey key → ¬ MimicsPrefix (sha256Bytes C (tokenKey key))) →
          token { C with sha256 := hash } value key = token C value key) := by
  constructor
  · intro hsame forward v f key
    by_cases hkey : key = []
    · rw [hkey, fpe_nil_key, fpe_nil_key]
    · have hnew : ({ C with sha256 := hash } : Crypto).ff1New = C.ff1New := rfl
      have haes : aesKey { C with sha256 := hash } key = aesKey C key := hsame _ ⟨key, rfl⟩
      exact fpe_congr_aesKey hnew haes hkey hkey forward v f
  · intro hsame value key hlong
    have hdigest {m : List UInt8} (hm : ¬ AesMessage m) :
        sha256Bytes { C with sha256 := hash } m = sha256Bytes C m :=
      congrArg Vector.toList (hsame m hm)
    have htag : hmacSha256 { C with sha256 := hash } (tokenKey key) (utf8Bytes value) =
        hmacSha256 C (tokenKey key) (utf8Bytes value) :=
      hmac_congr_hash (fun _ => hdigest (not_aesMessage_tokenKey key))
        (hdigest (not_aesMessage_masked hlong (.inl rfl) _))
        (hdigest (not_aesMessage_masked hlong (.inr rfl) _))
    rw [token, token, htag]

open Classical in
/-- Digests that are complemented at the inputs of the AES keys change every AES key and no token. -/
theorem hash_inputs_apart_recorded :
    (∀ k, aesKey { recordedCrypto with
        sha256 := fun m => if AesMessage m then (sha256 m).map (~~~ ·) else sha256 m } k ≠
      aesKey recordedCrypto k) ∧
    token { recordedCrypto with
        sha256 := fun m => if AesMessage m then (sha256 m).map (~~~ ·) else sha256 m }
        "acct-42".toList "k".toList = .ok "155f334b4c075f9274019b1ff4e7c2df".toList := by
  constructor
  · intro k h
    have hmessage : AesMessage (utf8Bytes "vgi-mask:fpe:v1".toList ++ utf8Bytes k) := ⟨k, rfl⟩
    have hdigest := congrArg (fun d : Vector UInt8 32 => d[0].toNat) ((if_pos hmessage).symm.trans h)
    rw [Vector.getElem_map, UInt8.toNat_not] at hdigest
    have hbyte : (aesKey recordedCrypto k)[0].toNat < 256 := UInt8.toNat_lt _
    change 255 - (aesKey recordedCrypto k)[0].toNat = (aesKey recordedCrypto k)[0].toNat at hdigest
    omega
  · have hsame := (hash_inputs_apart recordedCrypto fun m =>
      if AesMessage m then (sha256 m).map (~~~ ·) else sha256 m).2 (fun m hm => if_neg hm)
        "acct-42".toList "k".toList (by decide)
    exact hsame.trans (by decide +kernel)

end VgiMask
