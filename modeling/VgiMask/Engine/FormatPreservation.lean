import VgiMask.Engine.TextLaws
import VgiMask.Engine.KeyedCipher

/-!
# Format preservation

Both directions keep the number of characters, the number of bytes and every structural
character, and put encryptable characters where encryptable characters were. Whatever
sixteen digits a card value has, what comes back has sixteen digits that pass the Luhn test.
-/

namespace VgiMask

open Common

/-- For every character of a value, whether the profile may replace it. -/
def Format.mask (f : Format) (v : Text) : List Bool :=
  (f.split v).1.map f.encryptable ++ (f.split v).2.map fun _ => false

section Laws

variable {C : Crypto} {D : ℕ → List ℕ → Prop} {key v out : Text} {f : Format} {forward : Bool}

/-- An encryptable character is one byte long. -/
theorem utf8Size_of_contains {c : Char} (h : f.alphabet.contains c = true) : c.utf8Size = 1 :=
  f.alphabet.one_byte c (Alphabet.contains_iff.mp h)

/-- A rewritten value has as many characters. -/
theorem length_rebuild (f : Format) (v new : Text) : (f.rebuild v new).length = v.length := by
  rw [Format.rebuild, List.length_append, fill_length, ← List.length_append, Format.body_append_tail]

/-- A rewritten value has as many bytes. -/
theorem utf8Len_rebuild {new : Text} (h : f.Fits v new) :
    utf8Len (f.rebuild v new) = utf8Len v := by
  have hbody : utf8Len (fill f.alphabet.contains (f.body v) new) = utf8Len (f.body v) :=
    sum_map_of_skeleton_eq Char.utf8Size 1 (fun _ => utf8Size_of_contains)
      (skeleton_fill h.contains (f.body v))
  rw [Format.rebuild, utf8Len_append, hbody, ← utf8Len_append, Format.body_append_tail]

/-- A rewritten value agrees outside the mask and is encryptable inside it. -/
theorem getElem?_rebuild {new : Text} (h : f.Fits v new) {i : ℕ} {c : Char} (hc : v[i]? = some c) :
    ((f.mask v)[i]? = some false → (f.rebuild v new)[i]? = some c) ∧
      ((f.mask v)[i]? = some true → ∃ d, (f.rebuild v new)[i]? = some d ∧ f.encryptable d = true) := by
  have hmask : f.mask v = (f.body v).map f.alphabet.contains ++ (f.tail v).map fun _ => false := by
    rw [Format.contains_eq_encryptable]
    rfl
  rw [← Format.body_append_tail f v] at hc
  rw [hmask, Format.rebuild, ← Format.contains_eq_encryptable]
  by_cases hi : i < (f.body v).length
  · have hbody : (f.body v)[i]? = some c := by rwa [List.getElem?_append_left hi] at hc
    have hslot := getElem?_of_skeleton_eq (skeleton_fill h.contains (f.body v)).symm hbody
    rw [List.getElem?_append_left (by rwa [List.length_map]), List.getElem?_map, hbody,
      Option.map_some, List.getElem?_append_left (by rwa [fill_length])]
    exact ⟨fun hfalse => hslot.1 (Option.some.inj hfalse), fun htrue => hslot.2 (Option.some.inj htrue)⟩
  · have hle : (f.body v).length ≤ i := Nat.not_lt.mp hi
    have htail : (f.tail v)[i - (f.body v).length]? = some c := by
      rwa [List.getElem?_append_right hle] at hc
    rw [List.getElem?_append_right (by rwa [List.length_map]), List.length_map, List.getElem?_map,
      htail, List.getElem?_append_right (by rwa [fill_length]), fill_length]
    refine ⟨fun _ => htail, fun htrue => ?_⟩
    cases htrue

/-- A returned value has as many bytes as the value. -/
theorem utf8Len_of_fpe (hpres : Ff1Preserves C Numerals) (h : fpe C forward v f key = .ok out) :
    utf8Len out = utf8Len v := by
  by_cases hkey : key = []
  · rw [hkey, fpe_nil_key] at h
    cases h
  · obtain ⟨new, -, hfits, rfl⟩ := fpe_eq_ok hkey hpres (covers_numerals f _) h
    exact utf8Len_rebuild hfits

/-- What a returned card value looks like, in either direction. -/
theorem fpe_card_luhn (hkey : key ≠ []) (hpres : Ff1Preserves C CardDomain)
    (h16 : (v.filter Char.isDigit).length = 16) (h : fpe C forward v .card key = .ok out) :
    (out.filter Char.isDigit).length = 16 ∧ isLuhnValid out = true := by
  have hcov := covers_cardDomain h16
  have hout : (out.filter Char.isDigit).length = 16 := by
    rw [← card_slots, slots_length_of_fpe hkey hpres hcov h, card_slots, h16]
  exact ⟨hout, (settled_card_eq_self_iff hout).mp (settled_of_fpe hkey hpres hcov h)⟩

end Laws

/-- Both directions keep lengths and structure and put encryptable characters in the other
places; up to the length limit of FF1 they return a value. -/
theorem fpe_preserves_format (C : Crypto) (hpres : Ff1Preserves C Numerals) (key : Text)
    (hkey : key ≠ []) (v : Text) (f : Format) (forward : Bool) :
    (Ff1Accepts C Ff1Domain → (f.slots v).length ≤ u32Max →
        ∃ out, fpe C forward v f key = .ok out) ∧
      ∀ out : Text, fpe C forward v f key = .ok out →
        out.length = v.length ∧ utf8Len out = utf8Len v ∧
          ∀ (i : ℕ) (c : Char), v[i]? = some c →
            ((f.mask v)[i]? = some false → out[i]? = some c) ∧
              ((f.mask v)[i]? = some true → ∃ d, out[i]? = some d ∧ f.encryptable d = true) := by
  constructor
  · intro hacc hlen
    apply fpe_returns hkey hacc _ (covers_ff1Domain hlen)
    exact fun key radix forward nums out hD => hpres key radix forward nums out hD.2.1
  · intro out hout
    obtain ⟨new, -, hfits, rfl⟩ := fpe_eq_ok hkey hpres (covers_numerals f _) hout
    exact ⟨length_rebuild f v new, utf8Len_rebuild hfits, fun i c hc => getElem?_rebuild hfits hc⟩

/-- The separators of a card number with multi-byte text around it are kept. -/
theorem fpe_preserves_format_recorded :
    fpe recordedCrypto true "é4012 8888-8888.1880é".toList .card "k".toList =
        .ok "é5476 7914-6539.6370é".toList ∧
      utf8Len "é5476 7914-6539.6370é".toList = utf8Len "é4012 8888-8888.1880é".toList := by
  have hout : fpe recordedCrypto true "é4012 8888-8888.1880é".toList .card "k".toList =
      .ok "é5476 7914-6539.6370é".toList := by decide +kernel
  exact ⟨hout, ((fpe_preserves_format recordedCrypto (recordedCrypto_preserves Numerals) "k".toList
    (by decide) "é4012 8888-8888.1880é".toList .card true).2 _ hout).2.1⟩

/-- Whatever sixteen digits come in, sixteen Luhn-valid digits come out, in either direction. -/
theorem card_output_valid (C : Crypto) (hacc : Ff1Accepts C CardDomain)
    (hpres : Ff1Preserves C CardDomain) (key : Text) (hkey : key ≠ []) (v : Text)
    (h16 : (v.filter Char.isDigit).length = 16) :
    (∃ out, fpeEncrypt C v .card key = .ok out ∧ (out.filter Char.isDigit).length = 16 ∧
        isLuhnValid out = true) ∧
      ∃ out, fpeDecrypt C v .card key = .ok out ∧ (out.filter Char.isDigit).length = 16 ∧
        isLuhnValid out = true := by
  have hvalid (forward : Bool) : ∃ out, fpe C forward v .card key = .ok out ∧
      (out.filter Char.isDigit).length = 16 ∧ isLuhnValid out = true := by
    obtain ⟨out, hout⟩ : ∃ out, fpe C forward v .card key = .ok out :=
      fpe_returns hkey hacc hpres (covers_cardDomain h16)
    exact ⟨out, hout, fpe_card_luhn hkey hpres h16 hout⟩
  exact ⟨hvalid true, hvalid false⟩

/-- A number with a wrong check digit is encrypted to a valid one. -/
theorem card_output_valid_recorded :
    isLuhnValid "4012-8888-8888-1880".toList = false ∧
      ∃ out, fpeEncrypt recordedCrypto "4012-8888-8888-1880".toList .card "k".toList = .ok out ∧
        (out.filter Char.isDigit).length = 16 ∧ isLuhnValid out = true :=
  ⟨by decide, (card_output_valid recordedCrypto recordedCrypto_accepts_card
    (recordedCrypto_preserves CardDomain) "k".toList (by decide) "4012-8888-8888-1880".toList
    (by decide)).1⟩

end VgiMask
