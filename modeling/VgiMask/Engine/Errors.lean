import VgiMask.Engine.TextLaws

/-!
# The errors of the engine

Under a non-empty key the only errors are those reported by FF1: every other check of the
engine panics rather than returning an error, so an error can come from one place.
-/

namespace VgiMask

open Common

/-- An error reported by FF1. -/
def MaskError.IsFpe (e : MaskError) : Prop := ∃ reason, e = .fpe reason

/-- The empty key is no failure of FF1. -/
theorem MaskError.not_isFpe_emptyKey : ¬ MaskError.emptyKey.IsFpe := fun ⟨_, h⟩ => nomatch h

/-- An unknown profile name is no failure of FF1. -/
theorem MaskError.not_isFpe_unknownFormat (name : Text) : ¬ (unknownFormat name).IsFpe :=
  fun ⟨_, h⟩ => nomatch h

/-- An unknown mode name is no failure of FF1. -/
theorem MaskError.not_isFpe_unknownMode (name : Text) : ¬ (unknownMode name).IsFpe :=
  fun ⟨_, h⟩ => nomatch h

/-- Parsing a profile name is no failure of FF1. -/
theorem Format.parse_not_isFpe (name : Text) : (Format.parse name).ErrsIn fun e => ¬ e.IsFpe := by
  rcases Format.parse_cases name with ⟨f, hf⟩ | hf
  · rw [hf]
    exact Outcome.errsIn_ok f
  · rw [hf]
    exact Outcome.errsIn_err (MaskError.not_isFpe_unknownFormat _)

/-- Parsing a mode name is no failure of FF1. -/
theorem RedactMode.parse_not_isFpe (name : Text) :
    (RedactMode.parse name).ErrsIn fun e => ¬ e.IsFpe := by
  rcases RedactMode.parse_cases name with ⟨m, hm⟩ | hm
  · rw [hm]
    exact Outcome.errsIn_ok m
  · rw [hm]
    exact Outcome.errsIn_err (MaskError.not_isFpe_unknownMode _)

/-- With FF1 on its domain, no value of bounded length makes it fail. -/
theorem fpe_not_isFpe {C : Crypto} {v : Text} (hacc : Ff1Accepts C Ff1Domain)
    (hpres : Ff1Preserves C Ff1Domain) (f : Format) (key : Text) (forward : Bool)
    (hlen : v.length ≤ u32Max) : (fpe C forward v f key).ErrsIn fun e => ¬ e.IsFpe := by
  by_cases hkey : key = []
  · rw [hkey, fpe_nil_key]
    exact Outcome.errsIn_err MaskError.not_isFpe_emptyKey
  · have hslots : (f.slots v).length ≤ u32Max := Nat.le_trans (slots_length_le f v) hlen
    obtain ⟨out, hout⟩ : ∃ out, fpe C forward v f key = .ok out :=
      fpe_returns hkey hacc hpres (covers_ff1Domain hslots)
    rw [hout]
    exact Outcome.errsIn_ok out

variable {E : MaskError → Prop}

/-- The radix bound is computed without errors. -/
theorem minLenLoop_errsIn (radix rounds domain len : ℕ) :
    (minLenLoop radix rounds domain len : Outcome MaskError ℕ).ErrsIn E := by
  induction rounds generalizing domain len with
  | zero =>
    intro e he
    cases he
  | succ rounds ih =>
    rw [minLenLoop]
    split
    · exact ih _ _
    · exact Outcome.errsIn_ok len

/-- The writing loop returns no errors when locating and rendering return none. -/
theorem writeSlots_errsIn {σ ν ι : Type} {locate : ι → Outcome MaskError ℕ}
    {render : ν → Outcome MaskError σ} (hlocate : ∀ m, (locate m).ErrsIn E)
    (hrender : ∀ v, (render v).ErrsIn E) (values : List ν) (marks : List ι) (out : List σ) :
    (writeSlots locate render values marks out).ErrsIn E := by
  refine Outcome.ErrsIn.foldlM (fun out entry => ?_) _ _
  refine Outcome.ErrsIn.bind (getChecked_errsIn _ _) fun v => ?_
  refine Outcome.ErrsIn.bind (hrender v) fun x => ?_
  exact Outcome.ErrsIn.bind (hlocate entry.1) fun i => setChecked_errsIn _ _ _

/-- The check digit is computed without errors. -/
theorem luhnCheckDigit_errsIn (payload : List ℕ) :
    (luhnCheckDigit payload : Outcome MaskError ℕ).ErrsIn E := by
  refine Outcome.ErrsIn.bind (Outcome.ErrsIn.foldlM (fun acc d => ?_) _ _) fun _ => Outcome.errsIn_ok _
  exact Outcome.ErrsIn.bind (addChecked_errsIn _ _ _) fun _ => Outcome.errsIn_ok _

/-- The errors of a use of FF1 are those it reports. -/
theorem ff1Apply_errsIn (C : Crypto) (key : Text) (radix : ℕ) (nums : List ℕ) (forward : Bool) :
    (ff1Apply C key radix nums forward).ErrsIn MaskError.IsFpe := by
  rw [ff1Apply_eq]
  intro e he
  cases hff : C.ff1 (aesKey C key) radix forward nums with
  | err reason =>
    rw [hff, Outcome.mapErr_err] at he
    exact ⟨reason, (Outcome.err.inj he).symm⟩
  | _ =>
    rw [hff] at he
    cases he

/-- The errors of the alphabet transform are those FF1 reports. -/
theorem fpeOverAlphabet_errsIn (C : Crypto) (key value : Text) (A : Alphabet) (forward : Bool) :
    (fpeOverAlphabet C key value A forward).ErrsIn MaskError.IsFpe := by
  rw [fpeOverAlphabet]
  refine Outcome.ErrsIn.bind (minLenLoop_errsIn _ _ _ _) fun minLen => ?_
  split
  · exact Outcome.errsIn_ok _
  · refine Outcome.ErrsIn.bind (ff1Apply_errsIn _ _ _ _ _) fun transformed => ?_
    exact writeSlots_errsIn (fun _ => Outcome.errsIn_ok _) (fun v => getChecked_errsIn _ _) _ _ _

/-- The errors of the card transform are those FF1 reports. -/
theorem fpeCard_errsIn (C : Crypto) (key value : Text) (forward : Bool) :
    (fpeCard C key value forward).ErrsIn MaskError.IsFpe := by
  rw [fpeCard]
  split
  · exact fpeOverAlphabet_errsIn C key value DIGITS forward
  · refine Outcome.ErrsIn.bind (Outcome.ErrsIn.mapM (fun i => ?_) _) fun nums => ?_
    · exact Outcome.ErrsIn.bind (getChecked_errsIn _ _) fun b => subChecked_errsIn _ _
    refine Outcome.ErrsIn.bind (takeChecked_errsIn _ _) fun head => ?_
    refine Outcome.ErrsIn.bind (ff1Apply_errsIn _ _ _ _ _) fun transformed => ?_
    refine Outcome.ErrsIn.bind (luhnCheckDigit_errsIn _) fun check => ?_
    refine writeSlots_errsIn (fun offset => ?_) (fun v => getChecked_errsIn _ _) _ _ _
    exact Outcome.ErrsIn.bind (sliceTo_errsIn _ _) fun _ => Outcome.errsIn_ok _

/-- Under a non-empty key the errors of the engine are those FF1 reports. -/
theorem fpe_errsIn (C : Crypto) (v : Text) (f : Format) {key : Text} (hkey : key ≠ [])
    (forward : Bool) : (fpe C forward v f key).ErrsIn MaskError.IsFpe := by
  rw [fpe_eq_dispatch hkey]
  cases f with
  | digits => exact fpeOverAlphabet_errsIn C key v DIGITS forward
  | ssn => exact fpeOverAlphabet_errsIn C key v DIGITS forward
  | alnum => exact fpeOverAlphabet_errsIn C key v ALNUM forward
  | card => exact fpeCard_errsIn C key v forward
  | email =>
    change (fpeEmail C key v forward).ErrsIn MaskError.IsFpe
    rw [fpeEmail]
    split
    · split
      · exact fpeOverAlphabet_errsIn C key v ALNUM forward
      · exact Outcome.ErrsIn.bind (fpeOverAlphabet_errsIn C key _ ALNUM forward) fun _ => Outcome.errsIn_ok _
    · exact fpeOverAlphabet_errsIn C key v ALNUM forward

end VgiMask
