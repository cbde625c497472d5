import VgiMask.Engine.TextLaws
import VgiMask.Engine.KeyedCipher

/-!
# Joins over differently written identifiers

Deleting the separators of an identifier commutes with encrypting it: the numerals, the
small-domain gate and the card decision see the stripped text only. Two spellings of one
identifier therefore get ciphertexts that strip alike, and two e-mail addresses with one
local part get one encrypted local part.
-/

namespace VgiMask

open Common

/-- Delete the characters a profile keeps in place. -/
def strip (f : Format) (v : Text) : Text := v.filter f.encryptable

section Laws

variable {C : Crypto} {key v : Text} {f : Format}

/-- Outside the e-mail profile a value is all body. -/
theorem split_of_ne_email (hf : f ≠ .email) (v : Text) : f.split v = (v, []) := by
  cases f with
  | email => exact absurd rfl hf
  | digits | alnum | card | ssn => rfl

/-- Outside the e-mail profile the slots are the stripped value. -/
theorem slots_eq_strip (hf : f ≠ .email) (v : Text) : f.slots v = strip f v := by
  rw [Format.slots, Format.body, split_of_ne_email hf, Format.contains_eq_encryptable, strip]

/-- A stripped value has nothing left to strip. -/
theorem strip_strip (f : Format) (v : Text) : strip f (strip f v) = strip f v := by
  rw [strip, strip, List.filter_filter]
  simp only [Bool.and_self]

/-- Rewriting a stripped value gives the new slots alone. -/
theorem rebuild_strip (hf : f ≠ .email) {new : Text} (h : f.Fits v new) :
    f.rebuild (strip f v) new = new := by
  rw [Format.rebuild, Format.body, Format.tail, split_of_ne_email hf, List.append_nil]
  apply fill_of_forall_slot
  · rw [Format.contains_eq_encryptable]
    exact fun _ hc => (List.mem_filter.mp hc).2
  · rw [h.length_eq, slots_eq_strip hf]

/-- Stripping commutes with both directions. -/
theorem strip_fpe (hkey : key ≠ []) (hpres : Ff1Preserves C Numerals) (hf : f ≠ .email)
    (forward : Bool) (v : Text) :
    strip f <$> fpe C forward v f key = fpe C forward (strip f v) f key := by
  have hslots : f.slots (strip f v) = f.slots v := by
    rw [slots_eq_strip hf, slots_eq_strip hf, strip_strip]
  rw [fpe_eq_rebuild hkey hpres (covers_numerals f _), fpe_eq_rebuild hkey hpres (covers_numerals f _),
    hslots]
  cases hnew : f.slotTransform C key forward (f.slots v) with
  | ok new =>
    obtain ⟨hlen, hcontains⟩ := slotTransform_fits Format.contains_of_mem_slots hpres
      (callsIn_numerals f _) hnew
    have hfits : f.Fits v new := ⟨hlen, hcontains⟩
    rw [Outcome.map_ok, Outcome.map_ok, Outcome.map_ok, rebuild_strip hf hfits, ← slots_eq_strip hf,
      Format.slots_rebuild hfits]
  | err e => rfl
  | panic => rfl
  | diverge => rfl

/-- An e-mail address with a usable domain is its encrypted local part and the domain. -/
theorem fpe_email_append (hkey : key ≠ []) (forward : Bool) (localPart : Text) {domain : Text}
    (hdomain : domain ≠ []) (hat : '@' ∉ domain) :
    fpe C forward (localPart ++ '@' :: domain) .email key =
      (· ++ '@' :: domain) <$> fpeOverAlphabet C key localPart ALNUM forward := by
  have hempty : domain.isEmpty = false := by simpa using hdomain
  rw [fpe_eq_dispatch hkey]
  change fpeEmail C key (localPart ++ '@' :: domain) forward = _
  rw [fpeEmail, rsplitOnce_append hat]
  simp only [hempty, Bool.false_eq_true, if_false]
  rfl

end Laws

/-- Stripping commutes with both directions, so spellings of one identifier get ciphertexts
that differ only in the kept characters; equal local parts get equal encrypted local parts. -/
theorem fpe_separator_insensitive (C : Crypto) (hpres : Ff1Preserves C Numerals) (key : Text)
    (hkey : key ≠ []) (forward : Bool) :
    (∀ (f : Format) (v : Text), f ≠ .email →
        strip f <$> fpe C forward v f key = fpe C forward (strip f v) f key) ∧
      (∀ (f : Format) (v w : Text), f ≠ .email → strip f v = strip f w →
        strip f <$> fpe C forward v f key = strip f <$> fpe C forward w f key ∧
          ∀ out, fpe C forward v f key = .ok out → f.shape out = f.shape v) ∧
      ∀ (l d₁ d₂ : Text), d₁ ≠ [] → d₂ ≠ [] → '@' ∉ d₁ → '@' ∉ d₂ →
        (fun out => (rsplitOnce '@' out).map Prod.fst) <$> fpe C forward (l ++ '@' :: d₁) .email key =
            (fun out => (rsplitOnce '@' out).map Prod.fst) <$>
              fpe C forward (l ++ '@' :: d₂) .email key ∧
          ∀ out, fpe C forward (l ++ '@' :: d₁) .email key = .ok out →
            ∃ enc, rsplitOnce '@' out = some (enc, d₁) := by
  refine ⟨fun f v hf => strip_fpe hkey hpres hf forward v, fun f v w hf hstrip => ⟨?_, ?_⟩,
    fun l d₁ d₂ hd₁ hd₂ hat₁ hat₂ => ⟨?_, ?_⟩⟩
  · rw [strip_fpe hkey hpres hf, strip_fpe hkey hpres hf, hstrip]
  · exact fun out hout => shape_of_fpe hkey hpres (covers_numerals f _) hout
  · have hbefore {d : Text} (hd : d ≠ []) (hat : '@' ∉ d) :
        (fun out => (rsplitOnce '@' out).map Prod.fst) <$> fpe C forward (l ++ '@' :: d) .email key =
          some <$> fpeOverAlphabet C key l ALNUM forward := by
      rw [fpe_email_append hkey forward l hd hat, ← comp_map]
      congr 1
      funext enc
      rw [Function.comp_apply, rsplitOnce_append hat, Option.map_some]
    rw [hbefore hd₁ hat₁, hbefore hd₂ hat₂]
  · intro out hout
    rw [fpe_email_append hkey forward l hd₁ hat₁] at hout
    obtain ⟨enc, -, rfl⟩ := (Outcome.map_eq_ok_iff _ _ _).mp hout
    exact ⟨enc, rsplitOnce_append hat₁ enc⟩

/-- A dashed and an undashed card number are encrypted to one number. -/
theorem fpe_separator_insensitive_recorded :
    strip .card <$> fpe recordedCrypto true "4012-8888-8888-1881".toList .card "k".toList =
        .ok "5476791465396370".toList ∧
      fpe recordedCrypto true "4012888888881881".toList .card "k".toList =
        .ok "5476791465396370".toList := by
  have hplain : fpe recordedCrypto true "4012888888881881".toList .card "k".toList =
      .ok "5476791465396370".toList := by decide +kernel
  have hstrip := (fpe_separator_insensitive recordedCrypto (recordedCrypto_preserves Numerals)
    "k".toList (by decide) true).1 .card "4012-8888-8888-1881".toList (by decide)
  exact ⟨hstrip.trans hplain, hplain⟩

end VgiMask
