import VgiMask.Engine.Crypto
import VgiMask.Common.Hmac

/-!
# Deterministic tokens

A token is the hexadecimal text of the first sixteen bytes of a keyed digest of the value.
The empty key is refused; every other key gives a token of thirty-two bytes.
-/

namespace VgiMask

open Common

/-- The SHA-256 digest as a list of bytes. -/
def sha256Bytes (C : Crypto) (message : List UInt8) : List UInt8 := (C.sha256 message).toList

/-- The keyed digest over SHA-256, whose block has 64 bytes. -/
def hmacSha256 (C : Crypto) (key message : List UInt8) : List UInt8 :=
  hmac (sha256Bytes C) 64 key message

/-- The key handed to the keyed digest: a domain separator and the caller's key string. -/
def tokenKey (key : Text) : List UInt8 :=
  utf8Bytes ("vgi-mask:token:v1:".toList ++ key)

/-- The pseudonym of a value under a key. -/
def token (C : Crypto) (value key : Text) : Outcome MaskError Text :=
  if key.isEmpty then .err .emptyKey
  else do
    let tag := hmacSha256 C (tokenKey key) (utf8Bytes value)
    let first ← takeChecked tag 16
    pure (hexEncode first)

/-- The empty key is refused. -/
theorem token_nil_key (C : Crypto) (value : Text) : token C value [] = .err .emptyKey := rfl

/-- A digest has thirty-two bytes. -/
theorem sha256Bytes_length (C : Crypto) (message : List UInt8) : (sha256Bytes C message).length = 32 :=
  Vector.length_toList

/-- Under a non-empty key the token is the text of the first half of the keyed digest. -/
theorem token_eq_hexEncode (C : Crypto) (value : Text) {key : Text} (hkey : key ≠ []) :
    token C value key =
      .ok (hexEncode ((hmacSha256 C (tokenKey key) (utf8Bytes value)).take 16)) := by
  have hempty : key.isEmpty = false := by simpa using hkey
  have hlen : (hmacSha256 C (tokenKey key) (utf8Bytes value)).length = 32 := sha256Bytes_length C _
  rw [token, hempty, if_neg Bool.false_ne_true]
  change (takeChecked (hmacSha256 C (tokenKey key) (utf8Bytes value)) 16 >>=
    fun first => pure (hexEncode first)) = _
  rw [takeChecked_of_le (by omega)]
  rfl

/-- A non-empty key gives a token of thirty-two bytes. -/
theorem token_eq_ok (C : Crypto) (value : Text) {key : Text} (hkey : key ≠ []) :
    ∃ s, token C value key = .ok s ∧ utf8Len s = 32 := by
  have hlen : (hmacSha256 C (tokenKey key) (utf8Bytes value)).length = 32 := sha256Bytes_length C _
  refine ⟨_, token_eq_hexEncode C value hkey, ?_⟩
  rw [utf8Len_hexEncode, List.length_take, hlen]
  rfl

/-- A token is computed for every value and key, or the key is refused. -/
theorem token_answers (C : Crypto) (value key : Text) : (token C value key).Answers := by
  by_cases hkey : key = []
  · rw [hkey, token_nil_key]
    exact ⟨nofun, nofun⟩
  · obtain ⟨s, hs, -⟩ := token_eq_ok C value hkey
    rw [hs]
    exact ⟨nofun, nofun⟩

end VgiMask
