import VgiMask.Common.Utf8
import Mathlib.Data.Bool.AllAny

/-!
# Keyed digests and their hexadecimal text

A key is fitted to the block of the hash, hashed first if it is longer, and enters the hash
twice under two masks. A digest is shown as two hexadecimal digits for each byte.
-/

namespace Common

section Hmac

variable (hash : List UInt8 → List UInt8) (blockLen : ℕ)

/-- The key, hashed if it is longer than the block, padded with zeros to the block. -/
def keyBlock (key : List UInt8) : List UInt8 :=
  let fitted := if key.length ≤ blockLen then key else hash key
  fitted ++ List.replicate (blockLen - fitted.length) 0

/-- The keyed digest of a message: the documented construction, which is assumed of implementations. -/
def hmac (key message : List UInt8) : List UInt8 :=
  let block := keyBlock hash blockLen key
  hash (block.map (· ^^^ 0x5c) ++ hash (block.map (· ^^^ 0x36) ++ message))

/-- A key that fits the block is only padded. -/
theorem keyBlock_of_le {key : List UInt8} (hkey : key.length ≤ blockLen) :
    keyBlock hash blockLen key = key ++ List.replicate (blockLen - key.length) 0 := by
  rw [keyBlock, if_pos hkey]

/-- Every key fills the block when digests fit it. -/
theorem keyBlock_length (hdigest : ∀ message, (hash message).length ≤ blockLen) (key : List UInt8) :
    (keyBlock hash blockLen key).length = blockLen := by
  have hfitted : (if key.length ≤ blockLen then key else hash key).length ≤ blockLen := by
    split
    · assumption
    · exact hdigest key
  rw [keyBlock, List.length_append, List.length_replicate]
  omega

/-- The message of the outer hash: the masked block and the inner digest. -/
def hmacOuter (key message : List UInt8) : List UInt8 :=
  let block := keyBlock hash blockLen key
  block.map (· ^^^ 0x5c) ++ hash (block.map (· ^^^ 0x36) ++ message)

/-- The keyed digest is the hash of its outer message. -/
theorem hmac_eq_hash_outer (key message : List UInt8) :
    hmac hash blockLen key message = hash (hmacOuter hash blockLen key message) := rfl

/-- Keys with one block have one keyed digest on every message. -/
theorem hmac_congr_block {key key' : List UInt8}
    (hblock : keyBlock hash blockLen key = keyBlock hash blockLen key') (message : List UInt8) :
    hmac hash blockLen key message = hmac hash blockLen key' message := by
  rw [hmac, hmac, hblock]

/-- The message of the inner hash: the masked block and the message. -/
def hmacInner (key message : List UInt8) : List UInt8 :=
  (keyBlock hash blockLen key).map (· ^^^ 0x36) ++ message

/-- Equal outer messages have equal blocks. -/
theorem keyBlock_eq_of_outer (hdigest : ∀ message, (hash message).length ≤ blockLen)
    {key key' message message' : List UInt8}
    (h : hmacOuter hash blockLen key message = hmacOuter hash blockLen key' message') :
    keyBlock hash blockLen key = keyBlock hash blockLen key' := by
  have hlen : ((keyBlock hash blockLen key).map (· ^^^ 0x5c)).length =
      ((keyBlock hash blockLen key').map (· ^^^ 0x5c)).length := by
    rw [List.length_map, List.length_map, keyBlock_length hash blockLen hdigest,
      keyBlock_length hash blockLen hdigest]
  have hmask := (List.append_inj h hlen).1
  exact List.map_injective_iff.mpr (fun a b hab => (UInt8.xor_left_inj _).mp hab) hmask

section Messages

variable {hash : List UInt8 → List UInt8} {blockLen : ℕ} {key key' message message' : List UInt8}

/-- A masked block and what is behind it are read off again. -/
theorem masked_append_eq_iff {block block' : List UInt8} (hlen : block.length = block'.length)
    (mask : UInt8) (rest rest' : List UInt8) :
    block.map (· ^^^ mask) ++ rest = block'.map (· ^^^ mask) ++ rest' ↔
      block = block' ∧ rest = rest' := by
  constructor
  · intro h
    obtain ⟨hblock, hrest⟩ := List.append_inj h (by simpa using hlen)
    exact ⟨List.map_injective_iff.mpr (fun _ _ hab => (UInt8.xor_left_inj _).mp hab) hblock, hrest⟩
  · rintro ⟨rfl, rfl⟩
    rfl

/-- Equal inner messages have equal blocks and equal messages. -/
theorem hmacInner_eq_iff (hdigest : ∀ message, (hash message).length ≤ blockLen) :
    hmacInner hash blockLen key message = hmacInner hash blockLen key' message' ↔
      keyBlock hash blockLen key = keyBlock hash blockLen key' ∧ message = message' := by
  apply masked_append_eq_iff
  simp [keyBlock_length hash blockLen hdigest]

/-- Equal outer messages have equal blocks and equal inner digests. -/
theorem hmacOuter_eq_iff (hdigest : ∀ message, (hash message).length ≤ blockLen) :
    hmacOuter hash blockLen key message = hmacOuter hash blockLen key' message' ↔
      keyBlock hash blockLen key = keyBlock hash blockLen key' ∧
        hash (hmacInner hash blockLen key message) = hash (hmacInner hash blockLen key' message') := by
  apply masked_append_eq_iff
  simp [keyBlock_length hash blockLen hdigest]

/-- A keyed digest reads the hash at a long key, at its inner message and at its outer message. -/
theorem hmac_congr_hash {hash' : List UInt8 → List UInt8}
    (hkey : blockLen < key.length → hash' key = hash key)
    (hinner : hash' (hmacInner hash blockLen key message) = hash (hmacInner hash blockLen key message))
    (houter : hash' (hmacOuter hash blockLen key message) = hash (hmacOuter hash blockLen key message)) :
    hmac hash' blockLen key message = hmac hash blockLen key message := by
  have hblock : keyBlock hash' blockLen key = keyBlock hash blockLen key := by
    by_cases hlong : blockLen < key.length
    · simp only [keyBlock, hkey hlong]
    · rw [keyBlock_of_le _ _ (Nat.le_of_not_lt hlong), keyBlock_of_le _ _ (Nat.le_of_not_lt hlong)]
  have houter' : hmacOuter hash' blockLen key message = hmacOuter hash blockLen key message := by
    unfold hmacInner at hinner
    simp only [hmacOuter, hblock, hinner]
  rw [hmac_eq_hash_outer, hmac_eq_hash_outer, houter', houter]

end Messages

end Hmac

section Padding

variable {α : Type}

/-- Trailing pads do not reach into a front part that ends in no pad. -/
theorem rdropWhile_append_of_self {p : α → Bool} {xs : List α} (hxs : xs.rdropWhile p = xs)
    (ys : List α) : (xs ++ ys).rdropWhile p = xs ++ ys.rdropWhile p := by
  induction ys using List.reverseRecOn with
  | nil => rw [List.rdropWhile_nil, List.append_nil, hxs]
  | append_singleton ys y ih =>
    rw [← List.append_assoc]
    by_cases hy : p y = true
    · rw [List.rdropWhile_concat_pos _ _ _ hy, List.rdropWhile_concat_pos _ _ _ hy, ih]
    · rw [List.rdropWhile_concat_neg _ _ _ hy, List.rdropWhile_concat_neg _ _ _ hy,
        List.append_assoc]

variable [DecidableEq α] {pad : α}

/-- Padding leaves no trace once trailing pads are removed. -/
theorem rdropWhile_append_replicate (xs : List α) (n : ℕ) :
    (xs ++ List.replicate n pad).rdropWhile (· == pad) = xs.rdropWhile (· == pad) := by
  induction n with
  | zero => rw [List.replicate_zero, List.append_nil]
  | succ n ih =>
    rw [List.replicate_succ', ← List.append_assoc, List.rdropWhile_concat_pos _ _ _ (by simp), ih]

/-- A list is its part without trailing pads, padded to its own length. -/
theorem rdropWhile_append_pads (xs : List α) :
    xs.rdropWhile (· == pad) ++ List.replicate (xs.length - (xs.rdropWhile (· == pad)).length) pad =
      xs := by
  have hpads : ∀ x ∈ xs.rtakeWhile (· == pad), x = pad := fun x hx => by
    simpa using List.mem_rtakeWhile_imp hx
  have hsplit : xs.rdropWhile (· == pad) ++ xs.rtakeWhile (· == pad) = xs :=
    List.rdropWhile_append_rtakeWhile
  have hlen : (xs.rtakeWhile (· == pad)).length =
      xs.length - (xs.rdropWhile (· == pad)).length := by
    have h := congrArg List.length hsplit
    rw [List.length_append] at h
    omega
  rw [← hlen, ← List.eq_replicate_of_mem hpads, hsplit]

/-- Two lists padded to one length are equal when they differ by trailing pads only. -/
theorem padded_eq_iff {xs ys : List α} {n : ℕ} (hxs : xs.length ≤ n) (hys : ys.length ≤ n) :
    xs ++ List.replicate (n - xs.length) pad = ys ++ List.replicate (n - ys.length) pad ↔
      xs.rdropWhile (· == pad) = ys.rdropWhile (· == pad) := by
  have hrefill : ∀ zs : List α, zs.length ≤ n → zs ++ List.replicate (n - zs.length) pad =
      zs.rdropWhile (· == pad) ++ List.replicate (n - (zs.rdropWhile (· == pad)).length) pad := by
    intro zs hzs
    have hle := (List.rdropWhile_prefix (· == pad) zs).length_le
    have hcount : n - (zs.rdropWhile (· == pad)).length =
        (zs.length - (zs.rdropWhile (· == pad)).length) + (n - zs.length) := by omega
    rw [hcount, List.replicate_add, ← List.append_assoc, rdropWhile_append_pads]
  constructor
  · intro h
    rw [← rdropWhile_append_replicate xs, h, rdropWhile_append_replicate]
  · intro h
    rw [hrefill xs hxs, hrefill ys hys, h]

end Padding

/-- The lower-case digit of a number below sixteen. -/
def hexDigit (n : ℕ) : Char := "0123456789abcdef".toList.getD n '0'

/-- Two hexadecimal digits for each byte, as encoders document it; it is assumed of implementations. -/
def hexEncode (bytes : List UInt8) : List Char :=
  bytes.flatMap fun b => [hexDigit (b.toNat / 16), hexDigit (b.toNat % 16)]

/-- A hexadecimal digit is one byte long. -/
theorem hexDigit_utf8Size (n : ℕ) : (hexDigit n).utf8Size = 1 := by
  have hall : ∀ c ∈ '0' :: "0123456789abcdef".toList, c.utf8Size = 1 :=
    List.all_iff_forall_prop.mp (by decide)
  apply hall
  rw [hexDigit, List.getD_eq_getElem?_getD]
  cases h : "0123456789abcdef".toList[n]? with
  | none => exact List.mem_cons_self
  | some c => exact List.mem_cons_of_mem _ (List.mem_of_getElem? h)

/-- A text of bytes has two of the sixteen digits for each byte. -/
theorem hexEncode_digits (bytes : List UInt8) : (hexEncode bytes).length = 2 * bytes.length ∧
    ∀ c ∈ hexEncode bytes, c ∈ "0123456789abcdef".toList := by
  have hdigit : ∀ n < 16, hexDigit n ∈ "0123456789abcdef".toList := by decide
  induction bytes with
  | nil => simp [hexEncode]
  | cons b bytes ih =>
    have hcons : hexEncode (b :: bytes) =
        hexDigit (b.toNat / 16) :: hexDigit (b.toNat % 16) :: hexEncode bytes := List.flatMap_cons
    have hb := b.toNat_lt
    rw [hcons]
    refine ⟨by rw [List.length_cons, List.length_cons, ih.1, List.length_cons]; omega, ?_⟩
    simp only [List.forall_mem_cons]
    exact ⟨hdigit _ (by omega), hdigit _ (by omega), ih.2⟩

/-- Different numbers below sixteen have different digits. -/
theorem hexDigit_injOn : ∀ n < 16, ∀ m < 16, hexDigit n = hexDigit m → n = m := by decide

/-- Different bytes have different texts. -/
theorem hexEncode_injective : Function.Injective hexEncode := by
  intro xs
  induction xs with
  | nil =>
    intro ys h
    cases ys with
    | nil => rfl
    | cons y ys => cases h
  | cons x xs ih =>
    intro ys h
    cases ys with
    | nil => cases h
    | cons y ys =>
      have hx := x.toNat_lt
      have hy := y.toNat_lt
      obtain ⟨hhigh, h⟩ := List.cons.inj h
      obtain ⟨hlow, htail⟩ := List.cons.inj h
      have hdiv := hexDigit_injOn _ (by omega) _ (by omega) hhigh
      have hmod := hexDigit_injOn _ (by omega) _ (by omega) hlow
      have hxy : x = y := UInt8.toNat_inj.mp (by omega)
      rw [hxy, ih htail]

/-- The text has two bytes for each byte. -/
theorem utf8Len_hexEncode (bytes : List UInt8) : utf8Len (hexEncode bytes) = 2 * bytes.length := by
  induction bytes with
  | nil => rfl
  | cons b bytes ih =>
    have hcons : hexEncode (b :: bytes) =
        [hexDigit (b.toNat / 16), hexDigit (b.toNat % 16)] ++ hexEncode bytes := List.flatMap_cons
    rw [hcons, utf8Len_append, ih, utf8Len_cons, utf8Len_cons, hexDigit_utf8Size, hexDigit_utf8Size,
      utf8Len_nil, List.length_cons]
    omega

end Common
