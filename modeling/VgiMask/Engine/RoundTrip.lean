import VgiMask.Engine.TextLaws
import VgiMask.Engine.KeyedCipher
import VgiMask.Common.Permutation

/-!
# Round trips and keyed permutations

Decryption undoes encryption except in the sixteenth digit of a card number, which both
directions settle. Every other profile is a keyed permutation of the values of one shape;
the card profile is one of the Luhn-valid values of one shape.
-/

namespace VgiMask

open Common

section Laws

variable {C : Crypto} {D : ℕ → List ℕ → Prop} {key v : Text} {f : Format}

/-- Running a direction and then the other returns the settled value. -/
theorem fpe_bind_inverse (hkey : key ≠ []) (hacc : Ff1Accepts C D) (hpres : Ff1Preserves C D)
    (hinv : Ff1Inverse C D) (hcov : f.Covers D (f.slots v).length) (forward : Bool) :
    (fpe C forward v f key >>= fun out => fpe C (!forward) out f key) = .ok (f.settled v) := by
  obtain ⟨out, hout⟩ : ∃ out, fpe C forward v f key = .ok out := fpe_returns hkey hacc hpres hcov
  rw [hout, Outcome.ok_bind]
  exact fpe_inverse hkey hpres hinv hcov hout

/-- The engine permutes every set of settled values that shape and settling cannot leave. -/
theorem exists_perm_fpe {S : Set Text} (hkey : key ≠ []) (hacc : Ff1Accepts C D)
    (hpres : Ff1Preserves C D) (hinv : Ff1Inverse C D)
    (hcov : ∀ w ∈ S, f.Covers D (f.slots w).length) (hsettled : ∀ w ∈ S, f.settled w = w)
    (hclosed : ∀ w ∈ S, ∀ out, f.shape out = f.shape w → f.settled out = out → out ∈ S) :
    ∃ π : Equiv.Perm S, ∀ w : S,
      fpeEncrypt C w f key = .ok (π w).val ∧ fpeDecrypt C w f key = .ok (π.symm w).val := by
  have hstep (forward : Bool) : ∀ w ∈ S, ∃ out ∈ S,
      fpe C forward w f key = .ok out ∧ fpe C (!forward) out f key = .ok w := by
    intro w hw
    obtain ⟨out, hout⟩ : ∃ out, fpe C forward w f key = .ok out :=
      fpe_returns hkey hacc hpres (hcov w hw)
    have hmem := hclosed w hw out (shape_of_fpe hkey hpres (hcov w hw) hout)
      (settled_of_fpe hkey hpres (hcov w hw) hout)
    have hback := fpe_inverse hkey hpres hinv (hcov w hw) hout
    rw [hsettled w hw] at hback
    exact ⟨out, hmem, hout, hback⟩
  exact exists_perm_of_inverse _ _ (hstep true) (hstep false)

end Laws

/-- A value is a round trip unless it is a card number with a wrong check digit. -/
theorem fpe_roundTrip_iff (C : Crypto) (hacc : Ff1Accepts C Ff1Domain)
    (hpres : Ff1Preserves C Ff1Domain) (hinv : Ff1Inverse C Ff1Domain) (v : Text) (f : Format)
    (key : Text) (hkey : key ≠ []) (hlen : (f.slots v).length ≤ u32Max) :
    (∃ c, fpeEncrypt C v f key = .ok c ∧ fpeDecrypt C c f key = .ok v) ↔
      (f = .card → (v.filter Char.isDigit).length = 16 → isLuhnValid v = true) := by
  have hback := fpe_bind_inverse hkey hacc hpres hinv (covers_ff1Domain hlen) true
  have htrip : (∃ c, fpeEncrypt C v f key = .ok c ∧ fpeDecrypt C c f key = .ok v) ↔
      f.settled v = v := by
    rw [← Outcome.bind_eq_ok_iff]
    change (fpe C true v f key >>= fun out => fpe C (!true) out f key) = .ok v ↔ _
    rw [hback, Outcome.ok.injEq]
  rw [htrip]
  constructor
  · intro hsettled hcard h16
    subst hcard
    exact (settled_card_eq_self_iff h16).mp hsettled
  · intro hvalid
    cases hcard : f.isCard (f.slots v) with
    | false => exact settled_of_not_isCard hcard
    | true =>
      obtain ⟨rfl, h16⟩ := isCard_eq_true_iff.mp hcard
      rw [card_slots] at h16
      exact (settled_card_eq_self_iff h16).mpr (hvalid rfl h16)

/-- A card number that passes the Luhn test comes back. -/
theorem fpe_roundTrip_iff_recorded :
    "k".toList ≠ [] ∧ (Format.card.slots "4012888888881881".toList).length ≤ u32Max ∧
      ∃ c, fpeEncrypt recordedCrypto "4012888888881881".toList .card "k".toList = .ok c ∧
        fpeDecrypt recordedCrypto c .card "k".toList = .ok "4012888888881881".toList :=
  ⟨by decide, by decide, (fpe_roundTrip_iff recordedCrypto recordedCrypto_accepts
    (recordedCrypto_preserves Ff1Domain) (recordedCrypto_inverse Ff1Domain)
    "4012888888881881".toList .card "k".toList (by decide) (by decide)).mpr fun _ _ => by decide⟩

/-- A card number that fails the Luhn test does not come back. -/
theorem fpe_roundTrip_fails :
    Ff1Accepts recordedCrypto Ff1Domain ∧ Ff1Preserves recordedCrypto Ff1Domain ∧
      Ff1Inverse recordedCrypto Ff1Domain ∧ "k".toList ≠ [] ∧
      (Format.card.slots "4012888888881880".toList).length ≤ u32Max ∧
      ¬ ∃ c, fpeEncrypt recordedCrypto "4012888888881880".toList .card "k".toList = .ok c ∧
        fpeDecrypt recordedCrypto c .card "k".toList = .ok "4012888888881880".toList := by
  refine ⟨recordedCrypto_accepts, recordedCrypto_preserves Ff1Domain,
    recordedCrypto_inverse Ff1Domain, by decide, by decide, ?_⟩
  have henc : fpeEncrypt recordedCrypto "4012888888881880".toList .card "k".toList =
      .ok "5476791465396370".toList := by decide +kernel
  have hdec : fpeDecrypt recordedCrypto "5476791465396370".toList .card "k".toList =
      .ok "4012888888881881".toList := by decide +kernel
  intro ⟨c, hc, hback⟩
  obtain rfl := Outcome.ok.inj (henc.symm.trans hc)
  have hsame := Outcome.ok.inj (hdec.symm.trans hback)
  exact absurd hsame (by decide)

/-- Outside the card profile, the directions are inverse and permute every shape. -/
theorem fpe_permutes_shape (C : Crypto) (hacc : Ff1Accepts C Ff1Domain)
    (hpres : Ff1Preserves C Ff1Domain) (hinv : Ff1Inverse C Ff1Domain) (f : Format)
    (hf : f ≠ .card) (key : Text) (hkey : key ≠ []) (v : Text)
    (hlen : (f.slots v).length ≤ u32Max) :
    (fpeEncrypt C v f key >>= fun c => fpeDecrypt C c f key) = .ok v ∧
      (fpeDecrypt C v f key >>= fun c => fpeEncrypt C c f key) = .ok v ∧
      ∃ π : Equiv.Perm {w : Text | f.shape w = f.shape v}, ∀ w : {w : Text | f.shape w = f.shape v},
        fpeEncrypt C w f key = .ok (π w).val ∧ fpeDecrypt C w f key = .ok (π.symm w).val := by
  have hsettled (w : Text) : f.settled w = w := by
    apply settled_of_not_isCard
    rw [Bool.eq_false_iff]
    exact fun hcard => hf (isCard_eq_true_iff.mp hcard).1
  have hback (forward : Bool) :
      (fpe C forward v f key >>= fun out => fpe C (!forward) out f key) = .ok v := by
    rw [fpe_bind_inverse hkey hacc hpres hinv (covers_ff1Domain hlen) forward, hsettled]
  refine ⟨hback true, hback false, exists_perm_fpe hkey hacc hpres hinv ?_ ?_ ?_⟩
  · intro w hw
    apply covers_ff1Domain
    rwa [slots_length_of_shape_eq hw]
  · exact fun w _ => hsettled w
  · exact fun w hw out hshape _ => hshape.trans hw

/-- An e-mail address is permuted among the addresses of its shape. -/
theorem fpe_permutes_shape_recorded :
    Format.email ≠ .card ∧ "k".toList ≠ [] ∧
      (fpeEncrypt recordedCrypto "alice@x.com".toList .email "k".toList >>=
        fun c => fpeDecrypt recordedCrypto c .email "k".toList) = .ok "alice@x.com".toList ∧
      fpeEncrypt recordedCrypto "alice@x.com".toList .email "k".toList =
        .ok "rvDwa@x.com".toList :=
  ⟨by decide, by decide, (fpe_permutes_shape recordedCrypto recordedCrypto_accepts
    (recordedCrypto_preserves Ff1Domain) (recordedCrypto_inverse Ff1Domain) .email (by decide)
    "k".toList (by decide) "alice@x.com".toList (by decide)).1, by decide +kernel⟩

/-- Card round trips settle the sixteenth digit; the Luhn-valid values are permuted. -/
theorem card_roundTrip (C : Crypto) (hacc : Ff1Accepts C CardDomain)
    (hpres : Ff1Preserves C CardDomain) (hinv : Ff1Inverse C CardDomain) (key : Text)
    (hkey : key ≠ []) (v : Text) (h16 : (v.filter Char.isDigit).length = 16) :
    (∃ i check, (digitIndices v)[15]? = some i ∧
        (luhnCheckDigit ((digitValues v).take 15) : Outcome MaskError ℕ) = .ok check ∧
        (fpeEncrypt C v .card key >>= fun c => fpeDecrypt C c .card key) =
          .ok (v.set i (DIGITS.symbol check)) ∧
        (fpeDecrypt C v .card key >>= fun c => fpeEncrypt C c .card key) =
          .ok (v.set i (DIGITS.symbol check))) ∧
      ((fpeEncrypt C v .card key >>= fun c => fpeDecrypt C c .card key) = .ok v ↔
        isLuhnValid v = true) ∧
      ((fpeDecrypt C v .card key >>= fun c => fpeEncrypt C c .card key) = .ok v ↔
        isLuhnValid v = true) ∧
      ∃ π : Equiv.Perm {w : Text | Format.card.shape w = Format.card.shape v ∧ isLuhnValid w = true},
        ∀ w : {w : Text | Format.card.shape w = Format.card.shape v ∧ isLuhnValid w = true},
          fpeEncrypt C w .card key = .ok (π w).val ∧
            fpeDecrypt C w .card key = .ok (π.symm w).val := by
  have hlen16 (w : Text) (hw : Format.card.shape w = Format.card.shape v) :
      (w.filter Char.isDigit).length = 16 := by
    rw [← card_slots, slots_length_of_shape_eq hw, card_slots, h16]
  have hback := fpe_bind_inverse hkey hacc hpres hinv (covers_cardDomain h16)
  have hiff (forward : Bool) :
      (fpe C forward v .card key >>= fun out => fpe C (!forward) out .card key) = .ok v ↔
        isLuhnValid v = true := by
    rw [hback forward, Outcome.ok.injEq, settled_card_eq_self_iff h16]
  refine ⟨?_, hiff true, hiff false, exists_perm_fpe hkey hacc hpres hinv ?_ ?_ ?_⟩
  · obtain ⟨i, hi⟩ := exists_sixteenth h16
    have hset (forward : Bool) :
        (fpe C forward v .card key >>= fun out => fpe C (!forward) out .card key) =
          .ok (v.set i (DIGITS.symbol (luhnCheck ((digitValues v).take 15)))) := by
      rw [hback forward, settled_card_eq_set h16 hi]
    refine ⟨i, luhnCheck ((digitValues v).take 15), hi, ?_, hset true, hset false⟩
    have hnums : Numerals 10 (digitValues v) := by
      rw [digitValues_eq]
      exact DIGITS.numerals_lt v
    apply luhnCheckDigit_eq (numerals_take hnums 15)
    have htake : ((digitValues v).take 15).length ≤ 15 := List.length_take_le _ _
    omega
  · exact fun w hw => covers_cardDomain (hlen16 w hw.1)
  · exact fun w hw => (settled_card_eq_self_iff (hlen16 w hw.1)).mpr hw.2
  · intro w hw out hshape hsettled
    have hout := hshape.trans hw.1
    exact ⟨hout, (settled_card_eq_self_iff (hlen16 out hout)).mp hsettled⟩

/-- A number with a wrong check digit and separators comes back with the right one. -/
theorem card_roundTrip_recorded :
    (fpeEncrypt recordedCrypto "4012-8888-8888-1880".toList .card "k".toList >>=
        fun c => fpeDecrypt recordedCrypto c .card "k".toList) = .ok "4012-8888-8888-1881".toList ∧
      isLuhnValid "4012-8888-8888-1880".toList = false := by
  obtain ⟨i, check, hi, hcheck, hback, -⟩ := (card_roundTrip recordedCrypto recordedCrypto_accepts_card
    (recordedCrypto_preserves CardDomain) (recordedCrypto_inverse CardDomain) "k".toList
    (by decide) "4012-8888-8888-1880".toList (by decide)).1
  have hlast : (digitIndices "4012-8888-8888-1880".toList)[15]? = some 18 := by decide
  have hone : (luhnCheckDigit ((digitValues "4012-8888-8888-1880".toList).take 15) :
      Outcome MaskError ℕ) = .ok 1 := by decide
  obtain rfl := Option.some.inj (hlast.symm.trans hi)
  obtain rfl := Outcome.ok.inj (hone.symm.trans hcheck)
  exact ⟨hback.trans (by decide), by decide⟩

end VgiMask
