import VgiMask.Engine.LayeredEncryption
import VgiMask.Engine.LayeredRedaction

/-!
# Encryptions and redactions of one value

Encryptions, decryptions and redactions can be applied to each other's results in any order.
A star is no letter or digit, so no later encryption or decryption touches it: what a redaction
has starred out never comes back. The other characters keep their places and are replaced by
letters and digits at most where they are letters and digits. Encryption does not move what a
redaction looks for, so a redaction shows the same positions of a ciphertext as of the value.
-/

namespace VgiMask

open Common

/-- One application of the reversible functions or of the redaction. -/
inductive MaskStep where
  | layer (l : Layer)
  | redaction (mode : RedactMode)

/-- Apply a step to a value. -/
def MaskStep.apply (C : Crypto) : MaskStep → Text → Outcome MaskError Text
  | .layer l, v => l.apply C v
  | .redaction mode, v => .ok (redact v mode)

/-- Apply steps one after the other. -/
def runMasks (C : Crypto) (steps : List MaskStep) (v : Text) : Outcome MaskError Text :=
  runSteps (MaskStep.apply C) steps v

/-- A character is starred out, or kept up to a change of letters and digits. -/
def ShownAs (c d : Char) : Prop := d = '*' ∨ if c.isAlphanum then d.isAlphanum = true else d = c

/-- Every character is starred out, or kept up to a change of letters and digits. -/
def Shows (v w : Text) : Prop := List.Forall₂ ShownAs v w

section Characters

variable {c d e : Char}

/-- An unchanged character is kept. -/
theorem ShownAs.refl (c : Char) : ShownAs c c := by
  cases h : c.isAlphanum <;> simp [ShownAs, h]

/-- A star stays a star. -/
theorem ShownAs.star (h : ShownAs '*' d) : d = '*' := by
  have hstar : '*'.isAlphanum = false := by decide
  simpa [ShownAs, hstar] using h

/-- Showing what is shown shows no more. -/
theorem ShownAs.trans (h : ShownAs c d) (h' : ShownAs d e) : ShownAs c e := by
  rcases h with rfl | h
  · exact .inl h'.star
  · rcases h' with rfl | h'
    · exact .inl rfl
    · cases hc : c.isAlphanum with
      | true =>
        have hd : d.isAlphanum = true := by simpa [hc] using h
        simp_all [ShownAs]
      | false =>
        obtain rfl : d = c := by simpa [hc] using h
        simp_all [ShownAs]

/-- What is shown is no longer than what there was. -/
theorem ShownAs.utf8Size_le (h : ShownAs c d) : d.utf8Size ≤ c.utf8Size := by
  have hone {x : Char} (hx : x.isAlphanum = true) : x.utf8Size = 1 :=
    ALNUM.one_byte x (Alphabet.contains_iff.mp ((isAlphanum_eq_contains x).symm.trans hx))
  rcases h with rfl | h
  · have hstar : '*'.utf8Size = 1 := by decide
    have hc := c.utf8Size_pos
    omega
  · cases hc : c.isAlphanum with
    | true =>
      have hd : d.isAlphanum = true := by simpa [hc] using h
      rw [hone hc, hone hd]
    | false =>
      obtain rfl : d = c := by simpa [hc] using h
      exact Nat.le_refl _

/-- A letter or digit is shown only for a letter or digit. -/
theorem ShownAs.isAlphanum (h : ShownAs c d) (hd : d.isAlphanum = true) : c.isAlphanum = true := by
  rcases h with rfl | h
  · exact absurd hd (by decide)
  · cases hc : c.isAlphanum with
    | true => rfl
    | false =>
      obtain rfl : d = c := by simpa [hc] using h
      exact absurd hd (by simp [hc])

end Characters

section Texts

variable {v w x : Text}

/-- A text shows itself. -/
theorem Shows.refl (v : Text) : Shows v v := List.forall₂_same.mpr fun c _ => ShownAs.refl c

/-- Showing what is shown shows no more. -/
theorem Shows.trans (h : Shows v w) (h' : Shows w x) : Shows v x := by
  induction h generalizing x with
  | nil => exact h'
  | cons hc _ ih =>
    cases h' with
    | cons hd hrest => exact .cons (hc.trans hd) (ih hrest)

/-- What is shown is no longer than what there was. -/
theorem Shows.utf8Len_le (h : Shows v w) : utf8Len w ≤ utf8Len v := by
  induction h with
  | nil => exact Nat.le_refl 0
  | cons hc _ ih =>
    rw [utf8Len_cons, utf8Len_cons]
    exact Nat.add_le_add hc.utf8Size_le ih

/-- No more letters and digits are shown than there were. -/
theorem Shows.alnum_le (h : Shows v w) :
    (Format.alnum.slots w).length ≤ (Format.alnum.slots v).length := by
  change (w.filter ALNUM.contains).length ≤ (v.filter ALNUM.contains).length
  induction h with
  | nil => exact Nat.le_refl 0
  | cons hc _ ih =>
    rename_i c d v w _
    have himp : ALNUM.contains d = true → ALNUM.contains c = true := by
      rw [← isAlphanum_eq_contains, ← isAlphanum_eq_contains]
      exact hc.isAlphanum
    cases hd : ALNUM.contains d with
    | true => simpa [hd, himp hd] using ih
    | false => cases hcc : ALNUM.contains c <;> simp [hd, hcc] <;> omega

/-- Texts of one length show each other place by place. -/
theorem shows_iff : Shows v w ↔ w.length = v.length ∧
    ∀ (i : ℕ) (c d : Char), v[i]? = some c → w[i]? = some d → ShownAs c d := by
  rw [Shows, List.forall₂_iff_get]
  constructor
  · intro ⟨hlen, hplace⟩
    refine ⟨hlen.symm, fun i c d hc hd => ?_⟩
    obtain ⟨hi, rfl⟩ := List.getElem?_eq_some_iff.mp hc
    obtain ⟨hi', rfl⟩ := List.getElem?_eq_some_iff.mp hd
    exact hplace i hi hi'
  · intro ⟨hlen, hplace⟩
    refine ⟨hlen.symm, fun i hi hi' => ?_⟩
    exact hplace i _ _ (List.getElem?_eq_getElem hi) (List.getElem?_eq_getElem hi')

/-- A redaction stars characters out. -/
theorem shows_redact (v : Text) (mode : RedactMode) : Shows v (redact v mode) := by
  rw [shows_iff]
  refine ⟨redact_length v mode, fun i c d hc hd => ?_⟩
  rw [redact_eq_starOutside, getElem?_starOutside, hc, Option.map_some, Option.some.injEq] at hd
  split at hd
  · exact hd ▸ ShownAs.refl c
  · exact .inl hd.symm

/-- A value of the alphanumeric shape keeps every character up to letters and digits. -/
theorem shows_of_inShape (h : InShape v w) : Shows v w := by
  obtain ⟨hlen, -, hplace⟩ := h.frame
  rw [shows_iff]
  refine ⟨hlen, fun i c d hc hd => .inr ?_⟩
  obtain ⟨hother, halnum⟩ := hplace i c hc
  cases hcase : c.isAlphanum with
  | true =>
    obtain ⟨d', hd', hout⟩ := halnum hcase
    obtain rfl := Option.some.inj (hd.symm.trans hd')
    simpa using hout
  | false => simpa using (Option.some.inj (hd.symm.trans (hother hcase)))

end Texts

section Runs

variable {C : Crypto} {steps : List MaskStep} {v w : Text}

/-- A step returns a text that shows its value, stars and all. -/
theorem MaskStep.apply_returns (hacc : Ff1Accepts C Ff1Domain) (hpres : Ff1Preserves C Ff1Domain)
    {step : MaskStep} (hkey : ∀ l, step = .layer l → l.key ≠ [])
    (hlen : (Format.alnum.slots w).length ≤ u32Max) :
    ∃ out, step.apply C w = .ok out ∧ Shows w out := by
  cases step with
  | layer l =>
    obtain ⟨out, hout, hshape⟩ := VgiMask.apply_returns hacc hpres (hkey l rfl) ⟨rfl, hlen⟩
    exact ⟨out, hout, shows_of_inShape hshape⟩
  | redaction mode => exact ⟨_, rfl, shows_redact w mode⟩

/-- A run returns a text that shows its value. -/
theorem runMasks_returns (hacc : Ff1Accepts C Ff1Domain) (hpres : Ff1Preserves C Ff1Domain)
    (hkeys : ∀ l, .layer l ∈ steps → l.key ≠ []) (hlen : (Format.alnum.slots v).length ≤ u32Max) :
    ∃ out, runMasks C steps v = .ok out ∧ Shows v out := by
  have hreturn : ∀ step ∈ steps, ∀ w, Shows v w → ∃ out, step.apply C w = .ok out ∧ Shows v out := by
    intro step hstep w hw
    obtain ⟨out, hout, hshows⟩ := step.apply_returns hacc hpres
      (fun l hl => hkeys l (hl ▸ hstep)) (hw.alnum_le.trans hlen)
    exact ⟨out, hout, hw.trans hshows⟩
  exact runSteps_returns hreturn (Shows.refl v)

end Runs

/-- However encryptions, decryptions and redactions follow each other, the run returns; every
character is starred out or kept in its place up to a change of letters and digits; and what any
redaction of the run stars out is a star in the end. -/
theorem mixed_masks (C : Crypto) (hacc : Ff1Accepts C Ff1Domain) (hpres : Ff1Preserves C Ff1Domain)
    (steps : List MaskStep) (hkeys : ∀ l, .layer l ∈ steps → l.key ≠ []) (v : Text)
    (hlen : (Format.alnum.slots v).length ≤ u32Max) :
    ∃ out, runMasks C steps v = .ok out ∧ out.length = v.length ∧ utf8Len out ≤ utf8Len v ∧
      (∀ (i : ℕ) (c d : Char), v[i]? = some c → out[i]? = some d →
        d = '*' ∨ if c.isAlphanum then d.isAlphanum = true else d = c) ∧
      ∀ (before after : List MaskStep) (mode : RedactMode) (mid : Text),
        steps = before ++ .redaction mode :: after → runMasks C before v = .ok mid →
          ∀ i < v.length, kept mode mid i = false → out[i]? = some '*' := by
  obtain ⟨out, hout, hshows⟩ := runMasks_returns hacc hpres hkeys hlen
  obtain ⟨hlength, hplace⟩ := shows_iff.mp hshows
  refine ⟨out, hout, hlength, hshows.utf8Len_le, hplace, ?_⟩
  intro before after mode mid hsteps hmid i hi hkept
  have hbefore : ∀ l, .layer l ∈ before → l.key ≠ [] :=
    fun l hl => hkeys l (hsteps ▸ List.mem_append_left _ hl)
  have hafter : ∀ l, .layer l ∈ after → l.key ≠ [] :=
    fun l hl => hkeys l (hsteps ▸ List.mem_append_right _ (List.mem_cons_of_mem _ hl))
  obtain ⟨mid', hmid', hshows_mid⟩ := runMasks_returns hacc hpres hbefore hlen
  obtain rfl := Outcome.ok.inj (hmid.symm.trans hmid')
  have hredacted := hshows_mid.trans (shows_redact mid mode)
  obtain ⟨out', hout', hshows_out⟩ :=
    runMasks_returns hacc hpres hafter (hredacted.alnum_le.trans hlen)
  have hrun : runMasks C steps v = runMasks C after (redact mid mode) := by
    rw [hsteps, runMasks, runSteps_append]
    change (runMasks C before v >>= _) = _
    rw [hmid]
    rfl
  obtain rfl := Outcome.ok.inj (hout.symm.trans (hrun.trans hout'))
  -- the redaction leaves a star there, and a star is shown as a star by all that follows
  have hstar : (redact mid mode)[i]? = some '*' := by
    have hi' : i < mid.length := (shows_iff.mp hshows_mid).1 ▸ hi
    rw [redact_eq_starOutside, getElem?_starOutside, List.getElem?_eq_getElem hi', Option.map_some,
      if_neg (by simp [hkept])]
  have hend : out[i]? = some out[i] := List.getElem?_eq_getElem (hlength.symm ▸ hi)
  rw [hend, ((shows_iff.mp hshows_out).2 i _ _ hstar hend).star]

/-- What is starred out in a ciphertext is not decrypted. -/
theorem mixed_masks_recorded :
    ∃ out, runMasks recordedCrypto [.layer ⟨true, .card, "k".toList⟩, .redaction .last4,
        .layer ⟨false, .card, "k".toList⟩, .layer ⟨false, .digits, "old".toList⟩]
        "4012-8888-8888-1881".toList = .ok out ∧ out[0]? = some '*' := by
  obtain ⟨out, hout, -, -, -, hstars⟩ := mixed_masks recordedCrypto recordedCrypto_accepts
    (recordedCrypto_preserves Ff1Domain) [.layer ⟨true, .card, "k".toList⟩, .redaction .last4,
      .layer ⟨false, .card, "k".toList⟩, .layer ⟨false, .digits, "old".toList⟩]
    (by simp) "4012-8888-8888-1881".toList (by decide)
  have hmid : runMasks recordedCrypto [.layer ⟨true, .card, "k".toList⟩] "4012-8888-8888-1881".toList =
      .ok "5476-7914-6539-6370".toList := by decide +kernel
  exact ⟨out, hout, hstars [.layer ⟨true, .card, "k".toList⟩] _ .last4 _ rfl hmid 0 (by decide)
    (by decide)⟩

section Positions

variable {p : Char → Bool} {v w : Text}

/-- Texts with one skeleton are split at one place. -/
theorem rsplitOnce_of_skeleton_eq (hat : p '@' = false) (h : skeleton p v = skeleton p w) :
    (rsplitOnce '@' v).map (fun parts => (parts.1.length, parts.2.length)) =
      (rsplitOnce '@' w).map (fun parts => (parts.1.length, parts.2.length)) := by
  have hsep : ∀ c : Char, (if p c then none else some c) = (if p '@' then none else some '@') → c = '@' := by
    intro c
    cases hc : p c <;> simp [hat]
  have hsplit : rsplitOnce (if p '@' then none else some '@') (skeleton p v) =
      rsplitOnce (if p '@' then none else some '@') (skeleton p w) := by rw [h]
  rw [skeleton, skeleton, rsplitOnce_map hsep, rsplitOnce_map hsep] at hsplit
  have hlengths := congrArg (Option.map fun parts => (parts.1.length, parts.2.length)) hsplit
  simpa [Option.map_map, Function.comp_def] using hlengths

/-- The e-mail mode keeps positions of the lengths of the parts. -/
theorem kept_email_eq (v : Text) (i : ℕ) :
    kept .email v i =
      match (rsplitOnce '@' v).map (fun parts => (parts.1.length, parts.2.length)) with
      | some (n + 1, _ + 1) => i = 0 || n + 1 ≤ i
      | _ => false := by
  unfold kept
  dsimp only
  cases rsplitOnce '@' v with
  | none => rfl
  | some parts =>
    obtain ⟨before, after⟩ := parts
    cases before <;> cases after <;> rfl

/-- A redaction looks at the skeleton alone. -/
theorem kept_eq_of_skeleton_eq (hat : p '@' = false) (h : skeleton p v = skeleton p w)
    (mode : RedactMode) : kept mode v = kept mode w := by
  by_cases hmode : mode = .email
  · subst hmode
    funext i
    rw [kept_email_eq, kept_email_eq, rsplitOnce_of_skeleton_eq hat h]
  · have hlen : v.length = w.length := by simpa [skeleton] using congrArg List.length h
    exact kept_congr hmode hlen

end Positions

/-- Behind any layers of encryption a redaction shows exactly the positions that it shows of the
value, with the characters of the ciphertext, and stars out the same others. -/
theorem redact_runLayers (C : Crypto) (hacc : Ff1Accepts C Ff1Domain) (hpres : Ff1Preserves C Ff1Domain)
    (layers : List Layer) (hkeys : ∀ l ∈ layers, l.key ≠ []) (v : Text)
    (hlen : (Format.alnum.slots v).length ≤ u32Max) :
    ∃ out, runLayers C layers v = .ok out ∧
      ∀ (mode : RedactMode) (i : ℕ), kept mode out i = kept mode v i ∧
        (redact out mode)[i]? = if kept mode v i then out[i]? else (redact v mode)[i]? := by
  have hreturn : ∀ l ∈ layers, ∀ w, InShape v w → ∃ out, l.apply C w = .ok out ∧ InShape v out :=
    fun l hl _ hw => apply_returns hacc hpres (hkeys l hl) hw
  obtain ⟨out, hout, hshape⟩ := runSteps_returns hreturn ⟨rfl, hlen⟩
  refine ⟨out, hout, fun mode i => ?_⟩
  have hskeleton : skeleton ALNUM.contains out = skeleton ALNUM.contains v := by
    rw [← alnum_shape, ← alnum_shape, hshape.shape_eq]
  have hkept := kept_eq_of_skeleton_eq (by decide) hskeleton mode
  refine ⟨congrFun hkept i, ?_⟩
  rw [redact_eq_starOutside, getElem?_starOutside, redact_eq_starOutside v, getElem?_starOutside, hkept]
  cases kept mode v i with
  | true => simp
  | false =>
    by_cases hi : i < v.length
    · simp [hi, hshape.frame.1]
    · simp [hi, hshape.frame.1]

/-- Of an encrypted address the first character and the domain are shown, as of the address. -/
theorem redact_runLayers_recorded :
    ∃ out, runLayers recordedCrypto [⟨true, .email, "k".toList⟩] "alice@x.com".toList = .ok out ∧
      kept .email out 5 = kept .email "alice@x.com".toList 5 ∧ (redact out .email)[1]? = some '*' := by
  obtain ⟨out, hout, hkept⟩ := redact_runLayers recordedCrypto recordedCrypto_accepts
    (recordedCrypto_preserves Ff1Domain) [⟨true, .email, "k".toList⟩] (by decide)
    "alice@x.com".toList (by decide)
  exact ⟨out, hout, (hkept .email 5).1, (hkept .email 1).2⟩

end VgiMask
