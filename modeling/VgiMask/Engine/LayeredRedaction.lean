import VgiMask.Engine.Redact
import VgiMask.Common.Utf8

/-!
# Layered redaction

A redaction stars the characters outside a set of kept positions. Such maskings compose to
maskings and commute when their kept positions depend on nothing that a masking changes.
The positional modes look at the length alone; the e-mail mode finds the same address again
in what it returns.
-/

namespace VgiMask

open Common

/-- Star every character whose position is not kept. -/
def starOutside (keep : ℕ → Bool) (v : Text) : Text := v.mapIdx fun i c => if keep i then c else '*'

/-- The positions that a mode keeps. -/
def kept (mode : RedactMode) (v : Text) (i : ℕ) : Bool :=
  match mode with
  | .all => false
  | .last4 => v.length - min 4 v.length ≤ i
  | .first4 => i < min 4 v.length
  | .email =>
    match rsplitOnce '@' v with
    | some (first :: rest, _ :: _) => i = 0 || (first :: rest).length ≤ i
    | _ => false

section Masking

variable {v : Text}

@[simp] theorem starOutside_length (keep : ℕ → Bool) (v : Text) :
    (starOutside keep v).length = v.length := List.length_mapIdx

/-- A position shows its character where it is kept and a star elsewhere. -/
theorem getElem?_starOutside (keep : ℕ → Bool) (v : Text) (i : ℕ) :
    (starOutside keep v)[i]? = v[i]?.map fun c => if keep i then c else '*' := List.getElem?_mapIdx

/-- Two maskings keep the positions that both keep. -/
theorem starOutside_starOutside (keep keep' : ℕ → Bool) (v : Text) :
    starOutside keep' (starOutside keep v) = starOutside (fun i => keep i && keep' i) v := by
  apply List.ext_getElem?
  intro i
  rw [getElem?_starOutside, getElem?_starOutside, getElem?_starOutside, Option.map_map]
  congr 1
  funext c
  cases keep i <;> cases keep' i <;> rfl

/-- Keeping every position changes nothing. -/
theorem starOutside_true (v : Text) : starOutside (fun _ => true) v = v := by
  apply List.ext_getElem?
  intro i
  rw [getElem?_starOutside]
  cases v[i]? <;> rfl

/-- Keeping no position leaves stars. -/
theorem starOutside_false (v : Text) : starOutside (fun _ => false) v = stars v.length := by
  induction v with
  | nil => rfl
  | cons c v ih =>
    rw [starOutside, List.mapIdx_cons]
    exact congrArg ('*' :: ·) ih

/-- Stars in front keep the positions behind them. -/
theorem starOutside_le {k : ℕ} (hk : k ≤ v.length) :
    starOutside (fun i => decide (k ≤ i)) v = stars k ++ v.drop k := by
  induction v generalizing k with
  | nil =>
    obtain rfl := Nat.le_zero.mp hk
    rfl
  | cons c v ih =>
    cases k with
    | zero =>
      rw [List.drop_zero]
      exact starOutside_true (c :: v)
    | succ k =>
      have htail := ih (Nat.le_of_succ_le_succ hk)
      rw [starOutside, List.mapIdx_cons]
      simp only [Nat.add_le_add_iff_right]
      exact congrArg ('*' :: ·) htail

/-- Stars behind keep the positions in front of them. -/
theorem starOutside_lt {k : ℕ} (hk : k ≤ v.length) :
    starOutside (fun i => decide (i < k)) v = v.take k ++ stars (v.length - k) := by
  induction v generalizing k with
  | nil =>
    obtain rfl := Nat.le_zero.mp hk
    rfl
  | cons c v ih =>
    cases k with
    | zero => exact starOutside_false (c :: v)
    | succ k =>
      have htail := ih (Nat.le_of_succ_le_succ hk)
      rw [starOutside, List.mapIdx_cons, List.length_cons, Nat.add_sub_add_right]
      simp only [Nat.add_lt_add_iff_right]
      exact congrArg (c :: ·) htail

end Masking

/-- The positions of an address that are kept: the first and those from the last `@` on. -/
theorem kept_email_address {domain : Text} (hat : '@' ∉ domain) (hdomain : domain ≠ [])
    (first : Char) (rest : Text) :
    kept .email (first :: rest ++ '@' :: domain) =
      fun i => decide (i = 0) || decide (rest.length + 1 ≤ i) := by
  funext i
  cases domain with
  | nil => exact absurd rfl hdomain
  | cons d domain =>
    rw [kept, rsplitOnce_append hat]
    rfl

/-- Without an address the e-mail mode keeps no position. -/
theorem kept_email_of_nothing {v : Text} (h : keptView .email v = .nothing) :
    kept .email v = fun _ => false := by
  funext i
  unfold keptView at h
  unfold kept
  dsimp only at h ⊢
  split
  · rename_i hsplit
    rw [hsplit] at h
    cases h
  · rfl

/-- Every mode masks the positions it does not keep. -/
theorem redact_eq_starOutside (v : Text) (mode : RedactMode) :
    redact v mode = starOutside (kept mode v) v := by
  cases mode with
  | all => exact (starOutside_false v).symm
  | last4 => exact (starOutside_le (Nat.sub_le _ _)).symm
  | first4 => exact (starOutside_lt (Nat.min_le_right _ _)).symm
  | email =>
    rcases redact_email_cases v with ⟨first, rest, domain, rfl, hat, hdomain, h⟩ | ⟨hview, h⟩
    · have hle : rest.length ≤ (rest ++ '@' :: domain).length := by
        rw [List.length_append]
        exact Nat.le_add_right _ _
      have hrest := starOutside_le hle
      rw [List.drop_left] at hrest
      have hbehind : (fun i => (decide (i + 1 = 0) || decide (rest.length + 1 ≤ i + 1))) =
          fun i => decide (rest.length ≤ i) := by
        funext i
        simp
      rw [h, kept_email_address hat hdomain, List.cons_append, List.cons_append, ← hrest, ← hbehind,
        starOutside, starOutside, List.mapIdx_cons]
      rfl
    · rw [h, kept_email_of_nothing hview, starOutside_false]

/-- Masking replaces characters by a character of one byte. -/
theorem utf8Len_starOutside_le (keep : ℕ → Bool) (v : Text) :
    utf8Len (starOutside keep v) ≤ utf8Len v := by
  induction v generalizing keep with
  | nil => exact Nat.le_refl 0
  | cons c v ih =>
    have hhead : (if keep 0 then c else '*').utf8Size ≤ c.utf8Size := by
      have hstar : '*'.utf8Size = 1 := by decide
      have hpos := Char.utf8Size_pos c
      split <;> omega
    have htail := ih fun i => keep (i + 1)
    rw [starOutside, List.mapIdx_cons, utf8Len_cons, utf8Len_cons]
    exact Nat.add_le_add hhead htail

/-- Redaction never adds bytes. -/
theorem utf8Len_redact_le (v : Text) (mode : RedactMode) : utf8Len (redact v mode) ≤ utf8Len v := by
  rw [redact_eq_starOutside]
  exact utf8Len_starOutside_le _ v

/-- The positional modes keep positions of a length. -/
theorem kept_congr {mode : RedactMode} {v w : Text} (hmode : mode ≠ .email)
    (hlen : v.length = w.length) : kept mode v = kept mode w := by
  funext i
  cases mode with
  | all => rfl
  | last4 => rw [kept, kept, hlen]
  | first4 => rw [kept, kept, hlen]
  | email => exact absurd rfl hmode

/-- Redacting again changes nothing. -/
theorem redact_redact (v : Text) (mode : RedactMode) :
    redact (redact v mode) mode = redact v mode := by
  rw [redact_eq_paint, redact_length, keptView_redact, ← redact_eq_paint]

/-- Positional modes commute. -/
theorem redact_comm {mode mode' : RedactMode} (hmode : mode ≠ .email) (hmode' : mode' ≠ .email)
    (v : Text) : redact (redact v mode) mode' = redact (redact v mode') mode := by
  have hlayers {m m' : RedactMode} (hm' : m' ≠ .email) :
      redact (redact v m) m' = starOutside (fun i => kept m v i && kept m' v i) v := by
    rw [redact_eq_starOutside (redact v m), kept_congr hm' (redact_length v m),
      redact_eq_starOutside v m, starOutside_starOutside]
  rw [hlayers hmode', hlayers hmode]
  congr 1
  funext i
  exact Bool.and_comm _ _

/-- Any sequence of redactions is one masking. -/
theorem foldl_redact_eq_starOutside (modes : List RedactMode) (v : Text) :
    ∃ keep, modes.foldl redact v = starOutside keep v := by
  induction modes generalizing v with
  | nil => exact ⟨fun _ => true, (starOutside_true v).symm⟩
  | cons mode modes ih =>
    obtain ⟨keep, hkeep⟩ := ih (redact v mode)
    refine ⟨fun i => kept mode v i && keep i, ?_⟩
    rw [List.foldl_cons, hkeep, redact_eq_starOutside v mode, starOutside_starOutside]

/-- Redactions show at each position a star or the character that was there. -/
theorem getElem?_foldl_redact {modes : List RedactMode} {v : Text} {i : ℕ} {c : Char}
    (h : (modes.foldl redact v)[i]? = some c) : c = '*' ∨ v[i]? = some c := by
  obtain ⟨keep, hkeep⟩ := foldl_redact_eq_starOutside modes v
  rw [hkeep, getElem?_starOutside] at h
  obtain ⟨d, hd, hshown⟩ := Option.map_eq_some_iff.mp h
  split at hshown
  · exact .inr (hshown ▸ hd)
  · exact .inl hshown.symm

/-- A sequence of redactions keeps the length, and what it shows besides stars was shown at that
position all along; repeating a mode changes nothing; positional modes apply in any order. -/
theorem foldl_redact_layers (v : Text) :
    (∀ before after : List RedactMode, ((before ++ after).foldl redact v).length = v.length ∧
        ∀ (i : ℕ) (c : Char), ((before ++ after).foldl redact v)[i]? = some c →
          c = '*' ∨ ((before.foldl redact v)[i]? = some c ∧ v[i]? = some c)) ∧
      (∀ (modes : List RedactMode) (mode : RedactMode),
        (modes ++ [mode, mode]).foldl redact v = (modes ++ [mode]).foldl redact v) ∧
      ∀ modes modes' : List RedactMode, modes.Perm modes' →
        (∀ mode ∈ modes, mode = .all ∨ mode = .first4 ∨ mode = .last4) →
          modes.foldl redact v = modes'.foldl redact v := by
  refine ⟨fun before after => ⟨?_, fun i c hc => ?_⟩, fun modes mode => ?_,
    fun modes modes' hperm hpositional => ?_⟩
  · obtain ⟨keep, hkeep⟩ := foldl_redact_eq_starOutside (before ++ after) v
    rw [hkeep, starOutside_length]
  · rw [List.foldl_append] at hc
    rcases getElem?_foldl_redact hc with hstar | hbefore
    · exact .inl hstar
    · rcases getElem?_foldl_redact hbefore with hstar | hv
      · exact .inl hstar
      · exact .inr ⟨hbefore, hv⟩
  · rw [List.foldl_append, List.foldl_append]
    exact redact_redact _ mode
  · have hne : ∀ mode ∈ modes, mode ≠ .email := by
      intro mode hmode
      rcases hpositional mode hmode with rfl | rfl | rfl <;> decide
    exact hperm.foldl_eq' (fun mode hmode mode' hmode' w =>
      redact_comm (hne mode hmode) (hne mode' hmode') w) v

/-- First and last four of six characters, in either order, and again. -/
theorem foldl_redact_layers_recorded :
    [RedactMode.first4, .last4, .first4].foldl redact "abcdef".toList =
        [RedactMode.last4, .first4, .first4].foldl redact "abcdef".toList ∧
      [RedactMode.first4, .last4, .first4].foldl redact "abcdef".toList = "**cd**".toList :=
  ⟨(foldl_redact_layers "abcdef".toList).2.2 _ _ (List.Perm.swap RedactMode.last4 .first4 [.first4]) (by decide),
    by decide⟩

end VgiMask
