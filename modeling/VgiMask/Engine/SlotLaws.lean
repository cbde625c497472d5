import VgiMask.Engine.SlotTransform

/-!
# Laws of the slot transforms

What FF1 does on its blocks becomes what a profile does on its slot strings: an accepted
block is transformed, the result fits, the other direction undoes it up to the check digit
of a card number, and equal results come from equal slots up to that digit.
-/

namespace VgiMask

open Common

variable {C : Crypto} {D : ℕ → List ℕ → Prop} {key : Text} {f : Format} {forward : Bool}
  {slots slots' new new' : Text}

/-- A card number is a card number of any other sixteen slots. -/
theorem isCard_congr (h : slots.length = slots'.length) : f.isCard slots = f.isCard slots' := by
  rw [Format.isCard, Format.isCard, h]

/-- The card profile uses the decimal alphabet on sixteen slots. -/
theorem isCard_eq_true_iff : f.isCard slots = true ↔ f = .card ∧ slots.length = 16 := by
  simp [Format.isCard]

/-- The slots of a card number split into fifteen numerals and one more. -/
theorem take_numerals_length (hs : ∀ c ∈ slots, DIGITS.contains c = true)
    (h : slots.length = 16) : ((DIGITS.numerals slots).take 15).length = 15 := by
  rw [List.length_take, Alphabet.numerals_length, List.filter_eq_self.mpr hs, h]
  rfl

/-- Numerals followed by their check digit are numerals. -/
theorem numerals_append_check {nums : List ℕ} (h : Numerals 10 nums) :
    Numerals 10 (nums ++ [luhnCheck nums]) := by
  intro d hd
  rcases List.mem_append.mp hd with hd | hd
  · exact h d hd
  · exact List.mem_singleton.mp hd ▸ luhnCheck_lt nums

/-- A part of a numeral string is a numeral string. -/
theorem numerals_take {radix : ℕ} {nums : List ℕ} (h : Numerals radix nums) (n : ℕ) :
    Numerals radix (nums.take n) := fun d hd => h d (List.mem_of_mem_take hd)

/-- The calls for at most `u32::MAX` slots are in the domain of FF1. -/
theorem callsIn_ff1Domain (hs : ∀ c ∈ slots, f.alphabet.contains c = true)
    (hlen : slots.length ≤ u32Max) : f.CallsIn Ff1Domain slots := by
  intro radix nums hblock
  unfold Format.block at hblock
  split at hblock
  · rename_i hcard
    obtain ⟨rfl, h16⟩ := isCard_eq_true_iff.mp hcard
    obtain ⟨rfl, rfl⟩ := Prod.mk.inj (Option.some.inj hblock)
    have hcardDomain : CardDomain 10 ((DIGITS.numerals slots).take 15) :=
      ⟨rfl, numerals_take (DIGITS.numerals_lt slots) 15, take_numerals_length hs h16⟩
    exact hcardDomain.ff1Domain
  · split at hblock
    · cases hblock
    · rename_i hgate
      obtain ⟨rfl, rfl⟩ := Prod.mk.inj (Option.some.inj hblock)
      have hcount : (f.alphabet.numerals slots).length = slots.length := by
        rw [Alphabet.numerals_length, List.filter_eq_self.mpr hs]
      refine ⟨⟨f.alphabet.two_le, f.alphabet.le_max⟩, f.alphabet.numerals_lt slots, ?_, ?_⟩
      · rw [hcount]
        exact Nat.not_lt.mp hgate
      · rw [hcount]
        exact hlen

/-- The call for a card number is a card block. -/
theorem callsIn_cardDomain (hs : ∀ c ∈ slots, DIGITS.contains c = true)
    (h : slots.length = 16) : Format.card.CallsIn CardDomain slots := by
  intro radix nums hblock
  rw [Format.block, if_pos (isCard_eq_true_iff.mpr ⟨rfl, h⟩)] at hblock
  obtain ⟨rfl, rfl⟩ := Prod.mk.inj (Option.some.inj hblock)
  exact ⟨rfl, numerals_take (DIGITS.numerals_lt slots) 15, take_numerals_length hs h⟩

/-- Every call hands over numerals below the radix. -/
theorem callsIn_numerals (f : Format) (slots : Text) : f.CallsIn Numerals slots := by
  intro radix nums hblock
  unfold Format.block at hblock
  split at hblock
  · obtain ⟨rfl, rfl⟩ := Prod.mk.inj (Option.some.inj hblock)
    exact numerals_take (DIGITS.numerals_lt slots) 15
  · split at hblock
    · cases hblock
    · obtain ⟨rfl, rfl⟩ := Prod.mk.inj (Option.some.inj hblock)
      exact f.alphabet.numerals_lt slots

/-- The transformed slots of a card number are a new block and its check digit. -/
theorem slotTransform_card (hs : ∀ c ∈ slots, f.alphabet.contains c = true)
    (hpres : Ff1Preserves C D) (hcalls : f.CallsIn D slots) (hcard : f.isCard slots = true)
    (h : f.slotTransform C key forward slots = .ok new) :
    ∃ out, out.length = 15 ∧ Numerals 10 out ∧ D 10 ((DIGITS.numerals slots).take 15) ∧
      C.ff1 (aesKey C key) 10 forward ((DIGITS.numerals slots).take 15) = .ok out ∧
      new = DIGITS.render (out ++ [luhnCheck out]) := by
  obtain ⟨rfl, h16⟩ := isCard_eq_true_iff.mp hcard
  have hblock : Format.card.block slots = some (10, (DIGITS.numerals slots).take 15) := by
    rw [Format.block, if_pos hcard]
  rw [Format.slotTransform, hblock] at h
  obtain ⟨out, hout, rfl⟩ := (Outcome.map_eq_ok_iff _ _ _).mp h
  have hff1 := (ff1Apply_eq_ok_iff _ _ _ _ _ _).mp hout
  have hD := hcalls _ _ hblock
  obtain ⟨hlen, hrange⟩ := hpres _ _ _ _ _ hD hff1
  refine ⟨out, ?_, hrange, hD, hff1, ?_⟩
  · rw [hlen, take_numerals_length hs h16]
  · rw [Format.unblock, if_pos hcard]

/-- Short runs are returned. -/
theorem slotTransform_short (hcard : f.isCard slots = false)
    (hgate : f.alphabet.radix ^ slots.length < minDomain)
    (h : f.slotTransform C key forward slots = .ok new) : new = slots := by
  rw [slotTransform_of_not_isCard C key forward hcard, alphabetSlots, if_pos hgate] at h
  simpa [eq_comm] using h

/-- Any other run becomes a new block. -/
theorem slotTransform_long (hs : ∀ c ∈ slots, f.alphabet.contains c = true)
    (hpres : Ff1Preserves C D) (hcalls : f.CallsIn D slots) (hcard : f.isCard slots = false)
    (hgate : ¬ f.alphabet.radix ^ slots.length < minDomain)
    (h : f.slotTransform C key forward slots = .ok new) :
    ∃ out, out.length = slots.length ∧ Numerals f.alphabet.radix out ∧
      D f.alphabet.radix (f.alphabet.numerals slots) ∧
      C.ff1 (aesKey C key) f.alphabet.radix forward (f.alphabet.numerals slots) = .ok out ∧
      new = f.alphabet.render out := by
  rw [slotTransform_of_not_isCard C key forward hcard, alphabetSlots, if_neg hgate] at h
  obtain ⟨out, hout, rfl⟩ := (Outcome.map_eq_ok_iff _ _ _).mp h
  have hblock : f.block slots = some (f.alphabet.radix, f.alphabet.numerals slots) := by
    rw [Format.block, hcard, if_neg Bool.false_ne_true, if_neg hgate]
  have hff1 := (ff1Apply_eq_ok_iff _ _ _ _ _ _).mp hout
  have hD := hcalls _ _ hblock
  obtain ⟨hlen, hrange⟩ := hpres _ _ _ _ _ hD hff1
  refine ⟨out, ?_, hrange, hD, hff1, rfl⟩
  rw [hlen, Alphabet.numerals_length, List.filter_eq_self.mpr hs]

/-- An accepted block makes a transform that returns. -/
theorem slotTransform_accepts (hacc : Ff1Accepts C D) (hcalls : f.CallsIn D slots) :
    ∃ new, f.slotTransform C key forward slots = .ok new := by
  unfold Format.slotTransform
  cases hblock : f.block slots with
  | none => exact ⟨slots, rfl⟩
  | some call =>
    obtain ⟨radix, nums⟩ := call
    obtain ⟨out, hout⟩ := hacc (aesKey C key) radix forward nums (hcalls radix nums hblock)
    have happly := (ff1Apply_eq_ok_iff C key radix nums out forward).mpr hout
    exact ⟨f.unblock slots out, by simp [happly]⟩

/-- Where FF1 answers for a block, the transform answers. -/
theorem slotTransform_answers (hans : Ff1Answers C D) (hcalls : f.CallsIn D slots) :
    (f.slotTransform C key forward slots).Answers := by
  unfold Format.slotTransform
  cases hblock : f.block slots with
  | none => exact ⟨nofun, nofun⟩
  | some call =>
    obtain ⟨radix, nums⟩ := call
    have hff := hans (aesKey C key) radix forward nums (hcalls radix nums hblock)
    dsimp only
    rw [ff1Apply_eq]
    exact (hff.mapErr _).map _

/-- A returned slot string has the length of the old one and is encryptable. -/
theorem slotTransform_fits (hs : ∀ c ∈ slots, f.alphabet.contains c = true)
    (hpres : Ff1Preserves C D) (hcalls : f.CallsIn D slots)
    (h : f.slotTransform C key forward slots = .ok new) :
    new.length = slots.length ∧ ∀ c ∈ new, f.alphabet.contains c = true := by
  cases hcard : f.isCard slots with
  | true =>
    obtain ⟨out, hlen, hrange, -, -, rfl⟩ := slotTransform_card hs hpres hcalls hcard h
    obtain ⟨rfl, h16⟩ := isCard_eq_true_iff.mp hcard
    refine ⟨?_, Alphabet.contains_of_mem_render (numerals_append_check hrange)⟩
    rw [Alphabet.render_length, List.length_append, hlen, h16]
    rfl
  | false =>
    by_cases hgate : f.alphabet.radix ^ slots.length < minDomain
    · rw [slotTransform_short hcard hgate h]
      exact ⟨rfl, hs⟩
    · obtain ⟨out, hlen, hrange, -, -, rfl⟩ := slotTransform_long hs hpres hcalls hcard hgate h
      exact ⟨by rw [Alphabet.render_length, hlen], Alphabet.contains_of_mem_render hrange⟩

/-- The first fifteen numerals of a completed block are the block. -/
theorem take_numerals_render {out : List ℕ} (hlen : out.length = 15) (hrange : Numerals 10 out) :
    (DIGITS.numerals (DIGITS.render (out ++ [luhnCheck out]))).take 15 = out := by
  have hread : DIGITS.numerals (DIGITS.render (out ++ [luhnCheck out])) = out ++ [luhnCheck out] :=
    Alphabet.numerals_render (numerals_append_check hrange)
  rw [hread, List.take_left' hlen]

/-- The other direction returns the old slots, with the check digit of a card number settled. -/
theorem slotTransform_inverse (hs : ∀ c ∈ slots, f.alphabet.contains c = true)
    (hpres : Ff1Preserves C D) (hinv : Ff1Inverse C D) (hcalls : f.CallsIn D slots)
    (h : f.slotTransform C key forward slots = .ok new) :
    f.slotTransform C key (!forward) new = .ok (f.settle slots) := by
  have hfits := slotTransform_fits hs hpres hcalls h
  have hsame : f.isCard new = f.isCard slots := isCard_congr hfits.1
  cases hcard : f.isCard slots with
  | true =>
    obtain ⟨out, hlen, hrange, hD, hff1, rfl⟩ := slotTransform_card hs hpres hcalls hcard h
    have hback := (ff1Apply_eq_ok_iff _ _ _ _ _ _).mpr (hinv _ _ _ _ _ hD hff1)
    rw [hcard] at hsame
    rw [Format.slotTransform, Format.block, if_pos hsame, take_numerals_render hlen hrange]
    dsimp only
    rw [hback, Outcome.map_ok, Format.unblock, if_pos hsame, Format.settle, if_pos hcard]
  | false =>
    have hsettle : f.settle slots = slots := by
      rw [Format.settle, hcard, if_neg Bool.false_ne_true]
    rw [hsettle, slotTransform_of_not_isCard C key (!forward) (hsame.trans hcard), alphabetSlots,
      hfits.1]
    by_cases hgate : f.alphabet.radix ^ slots.length < minDomain
    · rw [if_pos hgate, slotTransform_short hcard hgate h]
    · obtain ⟨out, hlen, hrange, hD, hff1, rfl⟩ :=
        slotTransform_long hs hpres hcalls hcard hgate h
      have hback := (ff1Apply_eq_ok_iff _ _ _ _ _ _).mpr (hinv _ _ _ _ _ hD hff1)
      rw [if_neg hgate, Alphabet.numerals_render hrange, hback, Outcome.map_ok,
        Alphabet.render_numerals, List.filter_eq_self.mpr hs]

/-- Equal encrypted slots come from equal slots, with the check digit of a card number settled. -/
theorem slotTransform_injective (hs : ∀ c ∈ slots, f.alphabet.contains c = true)
    (hs' : ∀ c ∈ slots', f.alphabet.contains c = true)
    (hpres : Ff1Preserves C D) (hinj : Ff1Injective C D) (hcalls : f.CallsIn D slots)
    (hcalls' : f.CallsIn D slots') (h : f.slotTransform C key true slots = .ok new)
    (h' : f.slotTransform C key true slots' = .ok new) : f.settle slots = f.settle slots' := by
  have hlength : slots.length = slots'.length :=
    (slotTransform_fits hs hpres hcalls h).1.symm.trans (slotTransform_fits hs' hpres hcalls' h').1
  have hsame : f.isCard slots' = f.isCard slots := isCard_congr hlength.symm
  cases hcard : f.isCard slots with
  | true =>
    have hcard' := hsame.trans hcard
    obtain ⟨out, hlen, hrange, hD, hff1, hnew⟩ := slotTransform_card hs hpres hcalls hcard h
    obtain ⟨out', hlen', hrange', hD', hff1', hnew'⟩ :=
      slotTransform_card hs' hpres hcalls' hcard' h'
    have hout : out = out' := by
      rw [← take_numerals_render hlen hrange, ← hnew, hnew', take_numerals_render hlen' hrange']
    have hnums := hinj _ _ _ _ _ hD hD' hff1 (hout ▸ hff1')
    rw [Format.settle, Format.settle, if_pos hcard, if_pos hcard', hnums]
  | false =>
    have hcard' := hsame.trans hcard
    rw [Format.settle, Format.settle, hcard, hcard', if_neg Bool.false_ne_true,
      if_neg Bool.false_ne_true]
    by_cases hgate : f.alphabet.radix ^ slots.length < minDomain
    · have hgate' : f.alphabet.radix ^ slots'.length < minDomain := hlength ▸ hgate
      rw [← slotTransform_short hcard hgate h, slotTransform_short hcard' hgate' h']
    · have hgate' : ¬ f.alphabet.radix ^ slots'.length < minDomain := hlength ▸ hgate
      obtain ⟨out, -, hrange, hD, hff1, hnew⟩ := slotTransform_long hs hpres hcalls hcard hgate h
      obtain ⟨out', -, hrange', hD', hff1', hnew'⟩ :=
        slotTransform_long hs' hpres hcalls' hcard' hgate' h'
      have hout : out = out' := by
        rw [← Alphabet.numerals_render hrange, ← hnew, hnew', Alphabet.numerals_render hrange']
      have hnums := hinj _ _ _ _ _ hD hD' hff1 (hout ▸ hff1')
      calc
        slots = slots.filter f.alphabet.contains := (List.filter_eq_self.mpr hs).symm
        _ = slots'.filter f.alphabet.contains := Alphabet.filter_eq_of_numerals_eq hnums
        _ = slots' := List.filter_eq_self.mpr hs'

end VgiMask
