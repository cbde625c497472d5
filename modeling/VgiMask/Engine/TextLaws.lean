import VgiMask.Engine.CheckDigit

/-!
# Laws of the engine on values

The two public functions share one body with a direction. Under a non-empty key it rewrites
the slots of the value; running it back gives the value with the check digit of a card number
settled, and two values encrypt alike exactly when their settled forms agree.
-/

namespace VgiMask

open Common

/-- The public function of a direction. -/
def fpe (C : Crypto) (forward : Bool) (v : Text) (f : Format) (key : Text) :
    Outcome MaskError Text :=
  if forward then fpeEncrypt C v f key else fpeDecrypt C v f key

/-- Every call made for this many slots stays in a domain. -/
def Format.Covers (D : ℕ → List ℕ → Prop) (f : Format) (n : ℕ) : Prop :=
  ∀ slots : Text, (∀ c ∈ slots, f.alphabet.contains c = true) → slots.length = n →
    f.CallsIn D slots

/-- The domain of FF1 covers every value with at most `u32::MAX` encryptable characters. -/
theorem covers_ff1Domain {f : Format} {n : ℕ} (h : n ≤ u32Max) : f.Covers Ff1Domain n :=
  fun _ hs hlen => callsIn_ff1Domain hs (hlen ▸ h)

/-- Card blocks cover the card numbers. -/
theorem covers_cardDomain {v : Text} (h16 : (v.filter Char.isDigit).length = 16) :
    Format.card.Covers CardDomain (Format.card.slots v).length := by
  rw [card_slots, h16]
  exact fun _ hs hlen => callsIn_cardDomain hs hlen

/-- Numeral strings cover every value. -/
theorem covers_numerals (f : Format) (n : ℕ) : f.Covers Numerals n :=
  fun slots _ _ => callsIn_numerals f slots

variable {C : Crypto} {D : ℕ → List ℕ → Prop} {key v w out : Text} {f : Format} {forward : Bool}

/-- The calls for the slots of a value are covered. -/
theorem Format.Covers.callsIn (h : f.Covers D (f.slots v).length) : f.CallsIn D (f.slots v) :=
  h _ Format.contains_of_mem_slots rfl

/-- A non-empty key passes the check, and both directions dispatch. -/
theorem fpe_eq_dispatch (hkey : key ≠ []) : fpe C forward v f key = fpeDispatch C v f key forward := by
  have hempty : key.isEmpty = false := by simpa using hkey
  cases forward <;> simp [fpe, fpeEncrypt, fpeDecrypt, hempty]

/-- The empty key is refused in both directions. -/
theorem fpe_nil_key : fpe C forward v f [] = .err .emptyKey := by
  cases forward <;> rfl

/-- Under a non-empty key the engine rewrites the slots. -/
theorem fpe_eq_rebuild (hkey : key ≠ []) (hpres : Ff1Preserves C D)
    (hcov : f.Covers D (f.slots v).length) :
    fpe C forward v f key = f.rebuild v <$> f.slotTransform C key forward (f.slots v) := by
  rw [fpe_eq_dispatch hkey]
  exact fpeDispatch_eq C key v f forward hpres hcov.callsIn

/-- A returned value is a complete rewrite of the slots by their transform. -/
theorem fpe_eq_ok (hkey : key ≠ []) (hpres : Ff1Preserves C D)
    (hcov : f.Covers D (f.slots v).length) (h : fpe C forward v f key = .ok out) :
    ∃ new, f.slotTransform C key forward (f.slots v) = .ok new ∧ f.Fits v new ∧
      out = f.rebuild v new := by
  rw [fpe_eq_rebuild hkey hpres hcov] at h
  obtain ⟨new, hnew, rfl⟩ := (Outcome.map_eq_ok_iff _ _ _).mp h
  obtain ⟨hlen, hcontains⟩ :=
    slotTransform_fits Format.contains_of_mem_slots hpres hcov.callsIn hnew
  exact ⟨new, hnew, ⟨hlen, hcontains⟩, rfl⟩

/-- A covered value is transformed, not refused. -/
theorem fpe_returns (hkey : key ≠ []) (hacc : Ff1Accepts C D) (hpres : Ff1Preserves C D)
    (hcov : f.Covers D (f.slots v).length) : ∃ out, fpe C forward v f key = .ok out := by
  obtain ⟨new, hnew⟩ : ∃ new, f.slotTransform C key forward (f.slots v) = .ok new :=
    slotTransform_accepts hacc hcov.callsIn
  exact ⟨f.rebuild v new, by rw [fpe_eq_rebuild hkey hpres hcov, hnew]; rfl⟩

/-- Where FF1 answers, the engine answers. -/
theorem fpe_answers (hans : Ff1Answers C D) (hpres : Ff1Preserves C D)
    (hcov : f.Covers D (f.slots v).length) : (fpe C forward v f key).Answers := by
  by_cases hkey : key = []
  · rw [hkey, fpe_nil_key]
    exact ⟨nofun, nofun⟩
  · rw [fpe_eq_rebuild hkey hpres hcov]
    exact (slotTransform_answers hans hcov.callsIn).map _

/-- A returned value has as many slots as the value. -/
theorem slots_length_of_fpe (hkey : key ≠ []) (hpres : Ff1Preserves C D)
    (hcov : f.Covers D (f.slots v).length) (h : fpe C forward v f key = .ok out) :
    (f.slots out).length = (f.slots v).length := by
  obtain ⟨new, -, hfits, rfl⟩ := fpe_eq_ok hkey hpres hcov h
  rw [Format.slots_rebuild hfits, hfits.length_eq]

/-- A returned value has the shape of the value. -/
theorem shape_of_fpe (hkey : key ≠ []) (hpres : Ff1Preserves C D)
    (hcov : f.Covers D (f.slots v).length) (h : fpe C forward v f key = .ok out) :
    f.shape out = f.shape v := by
  obtain ⟨new, -, hfits, rfl⟩ := fpe_eq_ok hkey hpres hcov h
  exact Format.shape_rebuild hfits

/-- Running back gives the settled value. -/
theorem fpe_inverse (hkey : key ≠ []) (hpres : Ff1Preserves C D) (hinv : Ff1Inverse C D)
    (hcov : f.Covers D (f.slots v).length) (h : fpe C forward v f key = .ok out) :
    fpe C (!forward) out f key = .ok (f.settled v) := by
  have hcov' : f.Covers D (f.slots out).length := by
    rwa [slots_length_of_fpe hkey hpres hcov h]
  obtain ⟨new, hnew, hfits, rfl⟩ := fpe_eq_ok hkey hpres hcov h
  have hback := slotTransform_inverse Format.contains_of_mem_slots hpres hinv hcov.callsIn hnew
  rw [fpe_eq_rebuild hkey hpres hcov', Format.slots_rebuild hfits, hback, Outcome.map_ok,
    Format.rebuild_rebuild hfits (fits_settle f v).length_eq, Format.settled]

/-- A returned value is settled. -/
theorem settled_of_fpe (hkey : key ≠ []) (hpres : Ff1Preserves C D)
    (hcov : f.Covers D (f.slots v).length) (h : fpe C forward v f key = .ok out) :
    f.settled out = out := by
  obtain ⟨new, hnew, hfits, rfl⟩ := fpe_eq_ok hkey hpres hcov h
  rw [settled_eq_self_iff, Format.slots_rebuild hfits]
  exact slotTransform_settled Format.contains_of_mem_slots hpres hcov.callsIn hnew

/-- The settled value has as many slots as the value. -/
theorem slots_settled_length (f : Format) (v : Text) :
    (f.slots (f.settled v)).length = (f.slots v).length := by
  rw [Format.settled, Format.slots_rebuild (fits_settle f v), (fits_settle f v).length_eq]

/-- A value and its settled form are transformed alike. -/
theorem fpe_settled (hkey : key ≠ []) (hpres : Ff1Preserves C D)
    (hcov : f.Covers D (f.slots v).length) :
    fpe C forward (f.settled v) f key = fpe C forward v f key := by
  have hcov' : f.Covers D (f.slots (f.settled v)).length := by rwa [slots_settled_length]
  have hfits := fits_settle f v
  rw [fpe_eq_rebuild hkey hpres hcov, fpe_eq_rebuild hkey hpres hcov', Format.settled,
    Format.slots_rebuild hfits, slotTransform_settle C key forward Format.contains_of_mem_slots]
  cases hnew : f.slotTransform C key forward (f.slots v) with
  | ok new =>
    have hlen := (slotTransform_fits Format.contains_of_mem_slots hpres hcov.callsIn hnew).1
    rw [Outcome.map_ok, Outcome.map_ok, Format.rebuild_rebuild hfits hlen]
  | err e => rfl
  | panic => rfl
  | diverge => rfl

/-- A value has no more slots than characters. -/
theorem slots_length_le (f : Format) (v : Text) : (f.slots v).length ≤ v.length := by
  calc
    (f.slots v).length ≤ (f.body v).length := List.length_filter_le _ _
    _ ≤ (f.body v ++ f.tail v).length := by
      rw [List.length_append]
      exact Nat.le_add_right _ _
    _ = v.length := by rw [Format.body_append_tail]

/-- Values of one shape have equally many slots. -/
theorem slots_length_of_shape_eq (h : f.shape v = f.shape w) :
    (f.slots v).length = (f.slots w).length := by
  have hcount (u : Text) : (f.slots u).length = (f.shape u).countP (·.isNone) := by
    rw [Format.shape, List.countP_append, List.countP_map, skeleton, List.countP_map, Format.slots,
      ← List.countP_eq_length_filter]
    have htail : (f.tail u).countP ((fun o : Option Char => o.isNone) ∘ some) = 0 := by
      rw [List.countP_eq_zero]
      simp
    rw [htail, Nat.add_zero]
    congr 1
    funext c
    by_cases hc : f.alphabet.contains c = true <;> simp [hc]
  rw [hcount, hcount, h]

end VgiMask
