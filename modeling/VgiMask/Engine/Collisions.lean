import VgiMask.Engine.TextLaws
import VgiMask.Engine.KeyedCipher

/-!
# Referential integrity

Two values have one ciphertext exactly when their settled forms agree: they are the same
value, or card numbers that differ in the sixteenth digit alone. This covers values that
take different branches, since a ciphertext shows its shape and with it the branch.
-/

namespace VgiMask

open Common

section Laws

variable {C : Crypto} {D : ℕ → List ℕ → Prop} {key v w : Text} {f : Format}

/-- Encryption identifies exactly the values with one settled form. -/
theorem fpeEncrypt_eq_iff_settled (hkey : key ≠ []) (hacc : Ff1Accepts C D)
    (hpres : Ff1Preserves C D) (hinj : Ff1Injective C D) (hv : f.Covers D (f.slots v).length)
    (hw : f.Covers D (f.slots w).length) :
    fpeEncrypt C v f key = fpeEncrypt C w f key ↔ f.settled v = f.settled w := by
  change fpe C true v f key = fpe C true w f key ↔ _
  constructor
  · intro h
    obtain ⟨out, hout⟩ : ∃ out, fpe C true v f key = .ok out := fpe_returns hkey hacc hpres hv
    have hout' := h.symm.trans hout
    obtain ⟨new, hnew, hfits, hvalue⟩ := fpe_eq_ok hkey hpres hv hout
    obtain ⟨new', hnew', hfits', hvalue'⟩ := fpe_eq_ok hkey hpres hw hout'
    obtain ⟨rfl, hsame⟩ := Format.rebuild_eq_rebuild hfits hfits' (hvalue.symm.trans hvalue')
    have hsettle := slotTransform_injective Format.contains_of_mem_slots
      Format.contains_of_mem_slots hpres hinj hv.callsIn hw.callsIn hnew hnew'
    calc
      f.settled v = f.rebuild w (f.settle (f.slots v)) := hsame _ (fits_settle f v).length_eq
      _ = f.settled w := by rw [hsettle, Format.settled]
  · intro h
    rw [← fpe_settled hkey hpres hv, h, fpe_settled hkey hpres hw]

end Laws

section Card

variable {v w : Text} {i : ℕ} {y : Char}

/-- Assigning the sixteenth digit rewrites the last slot. -/
theorem set_sixteenth (hi : (digitIndices v)[15]? = some i) (y : Char) :
    v.set i y = Format.card.rebuild v ((Format.card.slots v).set 15 y) := by
  rw [digitIndices_eq] at hi
  exact (fill_set v 15 0 i y (by rwa [Nat.zero_add])).symm.trans (List.append_nil _).symm

/-- The index of the sixteenth digit holds a digit. -/
theorem isDigit_sixteenth (hi : (digitIndices v)[15]? = some i) :
    ∃ x, v[i]? = some x ∧ x.isDigit = true := by
  have hmem : 0 + i ∈ slotIndices Char.isDigit 0 v := by
    rw [Nat.zero_add]
    exact List.mem_of_getElem? hi
  exact mem_slotIndices_iff.mp hmem

/-- Settling reads only the first fifteen slots. -/
theorem settle_set (hs : ∀ c ∈ v, DIGITS.contains c = true) (h16 : v.length = 16)
    (hy : DIGITS.contains y = true) : Format.card.settle (v.set 15 y) = Format.card.settle v := by
  have hset : ∀ c ∈ v.set 15 y, DIGITS.contains c = true := by
    intro c hc
    rcases List.mem_or_eq_of_mem_set hc with hc | rfl
    · exact hs c hc
    · exact hy
  have hlen : (v.set 15 y).length = 16 := by rw [List.length_set, h16]
  rw [settle_card hset hlen, settle_card hs h16, Alphabet.take_numerals hset,
    Alphabet.take_numerals hs, List.take_set_of_le (Nat.le_refl 15), List.set_set]

/-- Assigning any digit as the sixteenth does not change the settled value. -/
theorem settled_set_sixteenth (h16 : (v.filter Char.isDigit).length = 16)
    (hi : (digitIndices v)[15]? = some i) (hy : y.isDigit = true) :
    Format.card.settled (v.set i y) = Format.card.settled v := by
  have hlen : (Format.card.slots v).length = 16 := by rw [card_slots, h16]
  have hdigit : DIGITS.contains y = true := by rw [← isDigit_eq_contains, hy]
  have hfits : Format.card.Fits v ((Format.card.slots v).set 15 y) := by
    refine ⟨List.length_set, fun c hc => ?_⟩
    rcases List.mem_or_eq_of_mem_set hc with hc | rfl
    · exact Format.contains_of_mem_slots c hc
    · exact hdigit
  rw [set_sixteenth hi, Format.settled, Format.slots_rebuild hfits,
    settle_set Format.contains_of_mem_slots hlen hdigit,
    Format.rebuild_rebuild hfits (fits_settle .card v).length_eq, Format.settled]

/-- Card numbers settle alike exactly when they agree outside the sixteenth digit. -/
theorem settled_card_eq_iff (hv : (v.filter Char.isDigit).length = 16)
    (hw : (w.filter Char.isDigit).length = 16) :
    Format.card.settled v = Format.card.settled w ↔
      v.length = w.length ∧ ∀ i, (digitIndices v)[15]? ≠ some i → v[i]? = w[i]? := by
  obtain ⟨i, hi⟩ := exists_sixteenth hv
  constructor
  · intro h
    have hskeleton : Format.card.shape v = Format.card.shape w := by
      rw [← Format.shape_rebuild (fits_settle .card v), ← Format.shape_rebuild (fits_settle .card w)]
      exact congrArg Format.card.shape h
    have hindices : digitIndices v = digitIndices w := by
      rw [digitIndices_eq, digitIndices_eq]
      apply slotIndices_of_skeleton_eq
      exact List.append_cancel_right hskeleton
    rw [settled_card_eq_set hv hi, settled_card_eq_set hw (hindices ▸ hi)] at h
    refine ⟨by simpa using congrArg List.length h, fun j hj => ?_⟩
    have hij : i ≠ j := fun hij => hj (hij ▸ hi)
    rw [← List.getElem?_set_ne hij, h, List.getElem?_set_ne hij]
  · intro ⟨hlen, hagree⟩
    have hset : v.set i '0' = w.set i '0' := by
      apply List.ext_getElem?
      intro j
      by_cases hij : i = j
      · rw [List.getElem?_set, List.getElem?_set, hlen, if_pos hij, if_pos hij]
      · rw [List.getElem?_set_ne hij, List.getElem?_set_ne hij]
        exact hagree j fun hj => hij (Option.some.inj (hi.symm.trans hj))
    obtain ⟨x, hx, hdigit⟩ := isDigit_sixteenth hi
    have hskeleton := skeleton_eq_of_set_eq hx hdigit (by decide) hset (hv.trans hw.symm)
    have hi' : (digitIndices w)[15]? = some i := by
      rw [digitIndices, ← slotIndices_of_skeleton_eq 0 hskeleton]
      exact hi
    have hzero : '0'.isDigit = true := by decide
    rw [← settled_set_sixteenth hv hi hzero, hset, settled_set_sixteenth hw hi' hzero]

end Card

/-- Two values have one ciphertext exactly when they are the same value or card numbers that
differ in the sixteenth digit alone. -/
theorem fpeEncrypt_eq_iff (C : Crypto) (hacc : Ff1Accepts C Ff1Domain)
    (hpres : Ff1Preserves C Ff1Domain) (hinj : Ff1Injective C Ff1Domain) (key : Text)
    (hkey : key ≠ []) (f : Format) (v w : Text) (hv : (f.slots v).length ≤ u32Max)
    (hw : (f.slots w).length ≤ u32Max) :
    fpeEncrypt C v f key = fpeEncrypt C w f key ↔
      v = w ∨ (f = .card ∧ (v.filter Char.isDigit).length = 16 ∧
        (w.filter Char.isDigit).length = 16 ∧ v.length = w.length ∧
        ∀ i, (digitIndices v)[15]? ≠ some i → v[i]? = w[i]?) := by
  rw [fpeEncrypt_eq_iff_settled hkey hacc hpres hinj (covers_ff1Domain hv) (covers_ff1Domain hw)]
  constructor
  · intro h
    have hlen : (f.slots v).length = (f.slots w).length := by
      rw [← slots_settled_length, h, slots_settled_length]
    have hsame : f.isCard (f.slots v) = f.isCard (f.slots w) := isCard_congr hlen
    cases hcard : f.isCard (f.slots v) with
    | false =>
      left
      rwa [settled_of_not_isCard hcard, settled_of_not_isCard (hsame ▸ hcard)] at h
    | true =>
      right
      obtain ⟨rfl, h16⟩ := isCard_eq_true_iff.mp hcard
      have hv16 : (v.filter Char.isDigit).length = 16 := by rw [← card_slots, h16]
      have hw16 : (w.filter Char.isDigit).length = 16 := by rw [← card_slots, ← hlen, h16]
      exact ⟨rfl, hv16, hw16, (settled_card_eq_iff hv16 hw16).mp h⟩
  · intro h
    rcases h with rfl | ⟨rfl, hv16, hw16, hagree⟩
    · rfl
    · exact (settled_card_eq_iff hv16 hw16).mpr hagree

/-- Two spellings of the sixteenth digit collide, and other digits do not. -/
theorem fpeEncrypt_eq_iff_recorded :
    fpeEncrypt recordedCrypto "4012-8888-8888-1880".toList .card "k".toList =
        fpeEncrypt recordedCrypto "4012-8888-8888-1881".toList .card "k".toList ∧
      fpeEncrypt recordedCrypto "4012-8888-8888-1880".toList .card "k".toList ≠
        fpeEncrypt recordedCrypto "4012-8888-8888-2880".toList .card "k".toList := by
  have hiff (w : Text) (hw : (Format.card.slots w).length ≤ u32Max) :=
    fpeEncrypt_eq_iff recordedCrypto recordedCrypto_accepts (recordedCrypto_preserves Ff1Domain)
      (recordedCrypto_injective Ff1Domain) "k".toList (by decide) .card
      "4012-8888-8888-1880".toList w (by decide) hw
  constructor
  · have hbelow : ∀ i < 19, (digitIndices "4012-8888-8888-1880".toList)[15]? ≠ some i →
        ("4012-8888-8888-1880".toList)[i]? = ("4012-8888-8888-1881".toList)[i]? := by decide
    refine (hiff _ (by decide)).mpr (.inr ⟨rfl, by decide, by decide, by decide, fun i hi => ?_⟩)
    by_cases hi' : i < 19
    · exact hbelow i hi' hi
    · rw [List.getElem?_eq_none (Nat.le_of_not_lt hi'), List.getElem?_eq_none (Nat.le_of_not_lt hi')]
  · intro h
    rcases (hiff _ (by decide)).mp h with heq | ⟨-, -, -, -, hsame⟩
    · exact absurd heq (by decide)
    · exact absurd (hsame 15 (by decide)) (by decide)

end VgiMask
