import VgiMask.Engine.Alphabet
import VgiMask.Common.SlotLoop
import VgiMask.Common.LastSplit
import VgiMask.Common.Luhn

/-!
# Format-preserving encryption

The engine functions as the code computes them. Values are taken apart into slot positions
and numerals, the numerals pass through FF1 as a block, and the result is spliced back.
The card profile does this over byte offsets with its own arithmetic. Every index, slice,
subtraction and sum that the code can trip over is a checked operation here.
-/

namespace VgiMask

open Common

/-- Derive the AES key from the caller's key string. -/
def aesKey (C : Crypto) (key : Text) : AesKey :=
  C.sha256 (utf8Bytes "vgi-mask:fpe:v1".toList ++ utf8Bytes key)

/-- Pass a numeral string through FF1 under the caller's key. -/
def ff1Apply (C : Crypto) (key : Text) (radix : ℕ) (nums : List ℕ) (forward : Bool) :
    Outcome MaskError (List ℕ) := do
  let ff ← (C.ff1New (aesKey C key) radix).mapErr .fpe
  let out ← (if forward then ff.encrypt [] nums else ff.decrypt [] nums).mapErr .fpe
  pure out

/-- Encrypt or decrypt every character of the alphabet, leaving the others in place. -/
def fpeOverAlphabet (C : Crypto) (key value : Text) (A : Alphabet) (forward : Bool) :
    Outcome MaskError Text := do
  let (positions, nums) := collectSlots A.valueOf value
  let minLen ← minLenForRadix A.radix
  if nums.length < minLen then
    pure value
  else
    let transformed ← ff1Apply C key A.radix nums forward
    writeSlots .ok A.symbolOf transformed positions value

/-- One step of the checksum loop, from the right; the sum is a 32-bit counter. -/
def luhnStep {ε : Type} (acc : ℕ × Bool) (d : ℕ) : Outcome ε (ℕ × Bool) := do
  let v := if acc.2 then luhnDouble d else d
  let sum ← addChecked 32 acc.1 v
  pure (sum, !acc.2)

/-- The check digit that completes the payload. -/
def luhnCheckDigit {ε : Type} (payload : List ℕ) : Outcome ε ℕ := do
  let (sum, _) ← payload.reverse.foldlM luhnStep (0, true)
  pure ((10 - sum % 10) % 10)

/-- Keep the domain after the last `@`; without a usable domain the value is plain alnum. -/
def fpeEmail (C : Crypto) (key value : Text) (forward : Bool) : Outcome MaskError Text :=
  match rsplitOnce '@' value with
  | some (localPart, domain) =>
    if domain.isEmpty then fpeOverAlphabet C key value ALNUM forward
    else do
      let encLocal ← fpeOverAlphabet C key localPart ALNUM forward
      pure (encLocal ++ '@' :: domain)
  | none => fpeOverAlphabet C key value ALNUM forward

/-- The numeral of the digit at a byte offset. -/
def digitAt {ε : Type} (bytes : List UInt8) (i : ℕ) : Outcome ε ℕ := do
  let b ← getChecked bytes i
  subChecked b.toNat 48

/-- The character index of a byte offset, recounted from the text before it. -/
def charIndexOf {ε : Type} (value : Text) (byteOffset : ℕ) : Outcome ε ℕ := do
  let before ← sliceTo value byteOffset
  pure before.length

/-- Encrypt the first fifteen of sixteen digits and recompute the last; any other number of
digits falls back to the plain digit profile. -/
def fpeCard (C : Crypto) (key value : Text) (forward : Bool) : Outcome MaskError Text := do
  let digitPositions := ((charIndices 0 value).filter fun entry => entry.2.isDigit).map Prod.fst
  if digitPositions.length ≠ 16 then
    fpeOverAlphabet C key value DIGITS forward
  else
    let bytes := utf8Bytes value
    let nums ← digitPositions.mapM (digitAt bytes)
    let head ← takeChecked nums 15
    let transformed ← ff1Apply C key DIGITS.radix head forward
    let check ← luhnCheckDigit transformed
    let newDigits := transformed ++ [check]
    writeSlots (charIndexOf value) DIGITS.symbolOf newDigits digitPositions value

/-- Select the transform of a profile. -/
def fpeDispatch (C : Crypto) (value : Text) (format : Format) (key : Text) (forward : Bool) :
    Outcome MaskError Text :=
  match format with
  | .digits => fpeOverAlphabet C key value DIGITS forward
  | .alnum => fpeOverAlphabet C key value ALNUM forward
  | .ssn => fpeOverAlphabet C key value DIGITS forward
  | .email => fpeEmail C key value forward
  | .card => fpeCard C key value forward

/-- Encrypt a value under a profile and a key; the empty key is refused. -/
def fpeEncrypt (C : Crypto) (value : Text) (format : Format) (key : Text) :
    Outcome MaskError Text :=
  if key.isEmpty then .err .emptyKey else fpeDispatch C value format key true

/-- Decrypt a value under a profile and a key; the empty key is refused. -/
def fpeDecrypt (C : Crypto) (value : Text) (format : Format) (key : Text) :
    Outcome MaskError Text :=
  if key.isEmpty then .err .emptyKey else fpeDispatch C value format key false

end VgiMask
