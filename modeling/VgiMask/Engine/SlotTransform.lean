import VgiMask.Engine.Profile

/-!
# One slot transform for each profile

The slots of a value form a numeral block, which FF1 maps to a block of the same size; runs
below the minimum domain pass. Sixteen slots under the card profile are fifteen numerals and
a check digit. The code's dispatch is this transform carried through the profile's lens,
whenever FF1 keeps the shape of the one block it is given.
-/

namespace VgiMask

open Common

namespace Format

/-- Whether the slots are those of a card number. -/
def isCard (f : Format) (slots : Text) : Bool := f = .card && slots.length = 16

/-- The radix and the block handed to FF1, if there is a call at all. -/
def block (f : Format) (slots : Text) : Option (ℕ × List ℕ) :=
  if f.isCard slots then some (10, (DIGITS.numerals slots).take 15)
  else if f.alphabet.radix ^ slots.length < minDomain then none
  else some (f.alphabet.radix, f.alphabet.numerals slots)

/-- The slots written for a block returned by FF1. -/
def unblock (f : Format) (slots : Text) (out : List ℕ) : Text :=
  if f.isCard slots then DIGITS.render (out ++ [luhnCheck out]) else f.alphabet.render out

/-- The slots with the last of a card number replaced by the check digit of the others. -/
def settle (f : Format) (slots : Text) : Text :=
  if f.isCard slots then
    DIGITS.render ((DIGITS.numerals slots).take 15 ++ [luhnCheck ((DIGITS.numerals slots).take 15)])
  else slots

/-- The transform of the slots of a value. -/
def slotTransform (C : Crypto) (key : Text) (f : Format) (forward : Bool) (slots : Text) :
    Outcome MaskError Text :=
  match f.block slots with
  | none => .ok slots
  | some (radix, nums) => f.unblock slots <$> ff1Apply C key radix nums forward

/-- The FF1 call made for the slots, if any, stays in a domain. -/
def CallsIn (D : ℕ → List ℕ → Prop) (f : Format) (slots : Text) : Prop :=
  ∀ radix nums, f.block slots = some (radix, nums) → D radix nums

end Format

/-- Away from card numbers the slot transform is that of the alphabet. -/
theorem slotTransform_of_not_isCard (C : Crypto) (key : Text) {f : Format} (forward : Bool)
    {slots : Text} (h : f.isCard slots = false) :
    f.slotTransform C key forward slots = alphabetSlots C key f.alphabet forward slots := by
  unfold Format.slotTransform Format.block alphabetSlots
  rw [h]
  by_cases hshort : f.alphabet.radix ^ slots.length < minDomain
  · simp [hshort]
  · have hrender : f.unblock slots = f.alphabet.render := by
      funext out
      rw [Format.unblock, h]
      rfl
    simp [hshort, hrender]

/-- The alphabet transform of a body is its slot transform, carried into the body. -/
theorem fpeOverAlphabet_body (C : Crypto) (key : Text) {D : ℕ → List ℕ → Prop} (f : Format)
    (forward : Bool) (v : Text) (hpres : Ff1Preserves C D) (hcalls : f.CallsIn D (f.slots v))
    (h : f.isCard (f.slots v) = false) :
    fpeOverAlphabet C key (f.body v) f.alphabet forward =
      fill f.alphabet.contains (f.body v) <$> f.slotTransform C key forward (f.slots v) := by
  rw [slotTransform_of_not_isCard C key forward h]
  apply fpeOverAlphabet_eq
  intro hlong out hout
  apply hpres _ _ _ _ _ (hcalls _ _ ?_) ((ff1Apply_eq_ok_iff _ _ _ _ _ _).mp hout)
  have hgate : ¬ f.alphabet.radix ^ (f.slots v).length < minDomain := Nat.not_lt.mpr hlong
  rw [Format.block, h, if_neg Bool.false_ne_true, if_neg hgate, Format.slots,
    Alphabet.numerals_filter]

/-- A value that is all body is transformed through its profile's lens. -/
theorem fpeOverAlphabet_whole (C : Crypto) (key : Text) {D : ℕ → List ℕ → Prop} (f : Format)
    (forward : Bool) (v : Text) (hpres : Ff1Preserves C D) (hcalls : f.CallsIn D (f.slots v))
    (hsplit : f.split v = (v, [])) (h : f.isCard (f.slots v) = false) :
    fpeOverAlphabet C key v f.alphabet forward =
      f.rebuild v <$> f.slotTransform C key forward (f.slots v) := by
  have hbody : f.body v = v := by rw [Format.body, hsplit]
  have hrebuild : f.rebuild v = fill f.alphabet.contains v := by
    funext new
    rw [Format.rebuild, Format.tail, hbody, hsplit, List.append_nil]
  have hover := fpeOverAlphabet_body C key f forward v hpres hcalls h
  rw [hbody] at hover
  rw [hover, hrebuild]

/-- The email transform goes through its lens, with or without a usable domain. -/
theorem fpeEmail_eq (C : Crypto) (key v : Text) {D : ℕ → List ℕ → Prop} (forward : Bool)
    (hpres : Ff1Preserves C D) (hcalls : Format.email.CallsIn D (Format.email.slots v)) :
    fpeEmail C key v forward =
      Format.email.rebuild v <$>
        Format.email.slotTransform C key forward (Format.email.slots v) := by
  have hwhole (hsplit : Format.email.split v = (v, [])) :=
    fpeOverAlphabet_whole C key .email forward v hpres hcalls hsplit rfl
  unfold fpeEmail
  cases hv : rsplitOnce '@' v with
  | none => exact hwhole (by simp [Format.split, hv])
  | some parts =>
    obtain ⟨localPart, domain⟩ := parts
    cases domain with
    | nil => exact hwhole (by simp [Format.split, hv])
    | cons d domain =>
      have hsplit : Format.email.split v = (localPart, '@' :: d :: domain) := by
        simp [Format.split, hv]
      have hover := fpeOverAlphabet_body C key .email forward v hpres hcalls rfl
      simp only [Format.body, hsplit] at hover
      change (fpeOverAlphabet C key localPart Format.email.alphabet forward >>=
        fun encLocal => pure (encLocal ++ '@' :: d :: domain)) = _
      have hrebuild (new : Text) : Format.email.rebuild v new =
          fill Format.email.alphabet.contains localPart new ++ '@' :: d :: domain := by
        rw [Format.rebuild, Format.body, Format.tail, hsplit]
      rw [hover]
      cases Format.email.slotTransform C key forward (Format.email.slots v) <;> simp [hrebuild]

/-- The card transform goes through its lens, for sixteen digits and for any other number. -/
theorem fpeCard_eq (C : Crypto) (key v : Text) {D : ℕ → List ℕ → Prop} (forward : Bool)
    (hpres : Ff1Preserves C D) (hcalls : Format.card.CallsIn D (Format.card.slots v)) :
    fpeCard C key v forward =
      Format.card.rebuild v <$>
        Format.card.slotTransform C key forward (Format.card.slots v) := by
  have hslots : Format.card.slots v = v.filter DIGITS.contains := rfl
  by_cases h16 : (v.filter DIGITS.contains).length = 16
  · have hcard : Format.card.isCard (Format.card.slots v) = true := by
      simpa [Format.isCard, hslots] using h16
    have hblock : Format.card.block (Format.card.slots v) =
        some (10, (DIGITS.numerals v).take 15) := by
      rw [Format.block, if_pos hcard, hslots, Alphabet.numerals_filter]
    have hlen : ((DIGITS.numerals v).take 15).length = 15 := by
      rw [List.length_take, Alphabet.numerals_length, h16]
      rfl
    have hshape : ∀ out, ff1Apply C key 10 ((DIGITS.numerals v).take 15) forward = .ok out →
        out.length = 15 ∧ Numerals 10 out := by
      intro out hout
      have h := hpres _ _ _ _ _ (hcalls _ _ hblock) ((ff1Apply_eq_ok_iff _ _ _ _ _ _).mp hout)
      rwa [hlen] at h
    have hwritten : (fun out => fill DIGITS.contains v (DIGITS.render (out ++ [luhnCheck out]))) =
        Format.card.rebuild v ∘ Format.card.unblock (Format.card.slots v) := by
      funext out
      rw [Function.comp_apply, Format.unblock, if_pos hcard]
      exact (List.append_nil _).symm
    rw [fpeCard_of_sixteen C key v forward h16 hshape, hwritten, Format.slotTransform, hblock,
      comp_map]
  · have hcard : Format.card.isCard (Format.card.slots v) = false := by
      simpa [Format.isCard, hslots] using h16
    rw [fpeCard_of_ne C key v forward h16]
    exact fpeOverAlphabet_whole C key .card forward v hpres hcalls rfl hcard

/-- The code's dispatch is the profile's slot transform carried through its lens. -/
theorem fpeDispatch_eq (C : Crypto) {D : ℕ → List ℕ → Prop} (key v : Text) (f : Format)
    (forward : Bool) (hpres : Ff1Preserves C D) (hcalls : f.CallsIn D (f.slots v)) :
    fpeDispatch C v f key forward =
      f.rebuild v <$> f.slotTransform C key forward (f.slots v) := by
  cases f with
  | digits => exact fpeOverAlphabet_whole C key .digits forward v hpres hcalls rfl rfl
  | alnum => exact fpeOverAlphabet_whole C key .alnum forward v hpres hcalls rfl rfl
  | ssn => exact fpeOverAlphabet_whole C key .ssn forward v hpres hcalls rfl rfl
  | email => exact fpeEmail_eq C key v forward hpres hcalls
  | card => exact fpeCard_eq C key v forward hpres hcalls

end VgiMask
