import VgiMask.Common.Slots
import Mathlib.Data.List.DropRight

/-!
# Byte offsets in UTF-8 text

A text is the list of its Unicode scalar values; its bytes are their UTF-8 encodings. Byte
offsets and character indices of the same symbol differ as soon as a multi-byte symbol
stands before it. A slot is located by what stands before it, and both addresses are
measures of that part.
-/

namespace Common

variable {ε : Type}

/-- The number of bytes of a text. -/
def utf8Len (xs : List Char) : ℕ := (xs.map Char.utf8Size).sum

/-- The bytes of a text. -/
def utf8Bytes (xs : List Char) : List UInt8 := xs.flatMap String.utf8EncodeChar

/-- Every symbol with the byte offset where it starts. -/
def charIndices : ℕ → List Char → List (ℕ × Char)
  | _, [] => []
  | offset, c :: cs => (offset, c) :: charIndices (offset + c.utf8Size) cs

/-- The text before a byte offset; an offset past the end or inside a symbol panics. -/
def sliceTo : List Char → ℕ → Outcome ε (List Char)
  | _, 0 => .ok []
  | [], _ + 1 => .panic
  | c :: cs, n + 1 =>
    if c.utf8Size ≤ n + 1 then (c :: ·) <$> sliceTo cs (n + 1 - c.utf8Size) else .panic

/-- Slicing at a byte offset panics or returns a text. -/
theorem sliceTo_errsIn {E : ε → Prop} (cs : List Char) (n : ℕ) :
    (sliceTo cs n : Outcome ε (List Char)).ErrsIn E := by
  induction cs generalizing n with
  | nil => cases n <;> nofun
  | cons c cs ih =>
    cases n with
    | zero => nofun
    | succ n =>
      rw [sliceTo]
      split
      · rw [← bind_pure_comp]
        exact Outcome.ErrsIn.bind (ih _) fun _ => nofun
      · nofun

/-- Every slot with all that stands before it. -/
def slotSplits {σ : Type} (p : σ → Bool) : List σ → List σ → List (List σ × σ)
  | _, [] => []
  | before, x :: xs =>
    if p x then (before, x) :: slotSplits p (before ++ [x]) xs else slotSplits p (before ++ [x]) xs

@[simp] theorem utf8Len_nil : utf8Len [] = 0 := rfl

@[simp] theorem utf8Len_cons (c : Char) (cs : List Char) :
    utf8Len (c :: cs) = c.utf8Size + utf8Len cs := by
  simp [utf8Len]

/-- Byte lengths add up. -/
@[simp] theorem utf8Len_append (xs ys : List Char) : utf8Len (xs ++ ys) = utf8Len xs + utf8Len ys := by
  simp [utf8Len]

/-- The number of bytes is the byte length. -/
theorem utf8Bytes_length (xs : List Char) : (utf8Bytes xs).length = utf8Len xs := by
  simp [utf8Bytes, utf8Len, List.length_flatMap]

/-- The bytes of two texts in a row. -/
theorem utf8Bytes_append (xs ys : List Char) : utf8Bytes (xs ++ ys) = utf8Bytes xs ++ utf8Bytes ys :=
  List.flatMap_append

/-- Texts with the same bytes are equal. -/
theorem utf8Bytes_injective : Function.Injective utf8Bytes := by
  intro xs ys h
  apply String.ofList_injective
  rw [← String.toByteArray_inj, String.toByteArray_ofList, String.toByteArray_ofList]
  exact congrArg List.toByteArray h

/-- The symbol of code point zero. -/
def nul : Char := Char.ofNat 0

/-- The encoding of every other symbol ends in a byte that is not zero. -/
theorem utf8EncodeChar_last {c : Char} (hc : c ≠ nul) :
    ∃ bytes b, String.utf8EncodeChar c = bytes ++ [b] ∧ b ≠ 0 := by
  have hpos : c.val.toNat ≠ 0 := by
    intro h
    exact hc (Char.ext (UInt32.toNat_inj.mp h))
  have hcont : UInt8.ofNat (c.val.toNat % 0x40 + 0x80) ≠ 0 := by
    intro h
    have hnat := congrArg UInt8.toNat h
    rw [UInt8.toNat_ofNat', UInt8.toNat_zero] at hnat
    omega
  rw [String.utf8EncodeChar]
  split
  · refine ⟨[], _, rfl, ?_⟩
    intro h
    have hnat := congrArg UInt8.toNat h
    rw [UInt8.toNat_ofNat', UInt8.toNat_zero] at hnat
    omega
  split
  · exact ⟨[_], _, rfl, hcont⟩
  split
  · exact ⟨[_, _], _, rfl, hcont⟩
  · exact ⟨[_, _, _], _, rfl, hcont⟩

/-- The trailing zero bytes of a text are those of its trailing zero symbols. -/
theorem utf8Bytes_rdropWhile (xs : List Char) :
    (utf8Bytes xs).rdropWhile (· == 0) = utf8Bytes (xs.rdropWhile (· == nul)) := by
  induction xs using List.reverseRecOn with
  | nil => rfl
  | append_singleton xs c ih =>
    by_cases hc : c = nul
    · have hzero : utf8Bytes (xs ++ [c]) = utf8Bytes xs ++ [0] := by
        rw [utf8Bytes_append, hc]
        rfl
      rw [hzero, List.rdropWhile_concat_pos _ _ _ (by simp), ih,
        List.rdropWhile_concat_pos _ _ _ (by simpa using hc)]
    · obtain ⟨bytes, b, henc, hb⟩ := utf8EncodeChar_last hc
      have hlast : utf8Bytes (xs ++ [c]) = (utf8Bytes xs ++ bytes) ++ [b] := by
        rw [utf8Bytes_append, List.append_assoc, ← henc]
        simp [utf8Bytes]
      rw [List.rdropWhile_concat_neg _ _ _ (by simpa using hc), hlast,
        List.rdropWhile_concat_neg _ _ _ (by simpa using hb)]

/-- A slice at a symbol boundary is the text before it. -/
theorem sliceTo_append (xs ys : List Char) :
    (sliceTo (xs ++ ys) (utf8Len xs) : Outcome ε (List Char)) = .ok xs := by
  induction xs with
  | nil => cases ys <;> rfl
  | cons c cs ih =>
    have hc := Char.utf8Size_pos c
    obtain ⟨n, hn⟩ : ∃ n, utf8Len (c :: cs) = n + 1 := ⟨utf8Len (c :: cs) - 1, by
      simp only [utf8Len_cons]
      omega⟩
    have hle : c.utf8Size ≤ n + 1 := by
      simp only [utf8Len_cons] at hn
      omega
    have hrest : n + 1 - c.utf8Size = utf8Len cs := by
      simp only [utf8Len_cons] at hn
      omega
    rw [hn, List.cons_append, sliceTo, if_pos hle, hrest, ih]
    rfl

/-- The byte where a one-byte symbol starts is that symbol. -/
theorem utf8Bytes_getElem? (xs ys : List Char) {c : Char} (hc : c.utf8Size = 1) :
    (utf8Bytes (xs ++ c :: ys))[utf8Len xs]? = some c.val.toUInt8 := by
  have hbytes : utf8Bytes (xs ++ c :: ys) = utf8Bytes xs ++ c.val.toUInt8 :: utf8Bytes ys := by
    simp [utf8Bytes, String.utf8EncodeChar_eq_singleton hc]
  rw [hbytes, ← utf8Bytes_length, List.getElem?_append_right (Nat.le_refl _), Nat.sub_self]
  rfl

section Splits

variable {σ : Type} {p : σ → Bool}

/-- A split is a decomposition of the text at one of its slots. -/
theorem mem_slotSplits {before xs : List σ} {entry : List σ × σ}
    (h : entry ∈ slotSplits p before xs) :
    p entry.2 = true ∧ ∃ rest, before ++ xs = entry.1 ++ entry.2 :: rest := by
  induction xs generalizing before with
  | nil => cases h
  | cons x xs ih =>
    by_cases hx : p x = true
    · simp only [slotSplits, hx, if_true] at h
      rcases List.mem_cons.mp h with rfl | h
      · exact ⟨hx, xs, rfl⟩
      · simpa using ih h
    · simp only [slotSplits, hx, Bool.false_eq_true, if_false] at h
      simpa using ih h

/-- The symbols of the splits are the slots in order. -/
theorem slotSplits_symbols (before xs : List σ) :
    (slotSplits p before xs).map Prod.snd = xs.filter p := by
  induction xs generalizing before with
  | nil => rfl
  | cons x xs ih => by_cases hx : p x <;> simp [slotSplits, hx, ih]

/-- A slot's index is the length of what stands before it. -/
theorem slotSplits_indices (before xs : List σ) :
    (slotSplits p before xs).map (fun entry => entry.1.length) = slotIndices p before.length xs := by
  induction xs generalizing before with
  | nil => rfl
  | cons x xs ih => by_cases hx : p x <;> simp [slotSplits, slotIndices, hx, ih]

/-- A slot's byte offset is the byte length of what stands before it. -/
theorem slotSplits_offsets {p : Char → Bool} (before xs : List Char) :
    (slotSplits p before xs).map (fun entry => utf8Len entry.1) =
      ((charIndices (utf8Len before) xs).filter fun entry => p entry.2).map Prod.fst := by
  induction xs generalizing before with
  | nil => rfl
  | cons x xs ih =>
    have htail := ih (before ++ [x])
    simp only [utf8Len_append, utf8Len_cons, utf8Len_nil, Nat.add_zero] at htail
    by_cases hx : p x <;> simp [slotSplits, charIndices, hx, htail]

end Splits

end Common
