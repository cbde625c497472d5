import VgiMask.Engine.Names
import VgiMask.Common.LastSplit

/-!
# Partial redaction

A redacted value shows the length of the value and the view its mode keeps, and nothing
else: it is painted from these two, and both are read off it again.
-/

namespace VgiMask

open Common

/-- A run of stars. -/
def stars (n : ℕ) : Text := List.replicate n '*'

/-- Star every character outside the region that the mode keeps. -/
def redact (value : Text) (mode : RedactMode) : Text :=
  let n := value.length
  match mode with
  | .all => stars n
  | .last4 =>
    let keep := min 4 n
    stars (n - keep) ++ value.drop (n - keep)
  | .first4 =>
    let keep := min 4 n
    value.take keep ++ stars (n - keep)
  | .email =>
    match rsplitOnce '@' value with
    | some (first :: rest, d :: domain) =>
      first :: stars ((first :: rest).length - 1) ++ '@' :: d :: domain
    | _ => stars n

/-- What a redacted value shows besides its length. -/
inductive KeptView where
  | nothing
  | back (cs : Text)
  | front (cs : Text)
  | address (first : Char) (domain : Text)
  deriving DecidableEq, Repr

/-- The view of a value that a mode keeps. -/
def keptView (mode : RedactMode) (v : Text) : KeptView :=
  match mode with
  | .all => .nothing
  | .last4 => .back (v.drop (v.length - min 4 v.length))
  | .first4 => .front (v.take (min 4 v.length))
  | .email =>
    match rsplitOnce '@' v with
    | some (first :: _, d :: domain) => .address first (d :: domain)
    | _ => .nothing

/-- The redacted value of a length that shows a view. -/
def paint (n : ℕ) : KeptView → Text
  | .nothing => stars n
  | .back cs => stars (n - cs.length) ++ cs
  | .front cs => cs ++ stars (n - cs.length)
  | .address first domain => first :: stars (n - (domain.length + 2)) ++ '@' :: domain

@[simp] theorem stars_length (n : ℕ) : (stars n).length = n := List.length_replicate

/-- No run of stars has an at sign. -/
theorem at_notMem_stars (n : ℕ) : '@' ∉ stars n := by
  intro h
  exact absurd (List.eq_of_mem_replicate h) (by decide)

/-- An address with a non-empty local part and domain shows its first character and domain. -/
theorem keptView_address {domain : Text} (hat : '@' ∉ domain) (hdomain : domain ≠ []) (first : Char)
    (rest : Text) : keptView .email (first :: rest ++ '@' :: domain) = .address first domain := by
  cases domain with
  | nil => exact absurd rfl hdomain
  | cons d domain => rw [keptView, rsplitOnce_append hat]

/-- A value without an at sign shows nothing of an address. -/
theorem keptView_email_of_notMem {v : Text} (h : '@' ∉ v) : keptView .email v = .nothing := by
  rw [keptView, (rsplitOnce_eq_none_iff '@' v).mpr h]

/-- The e-mail mode keeps the parts of an address, or stars a value that has none. -/
theorem redact_email_cases (v : Text) :
    (∃ first rest domain, v = first :: rest ++ '@' :: domain ∧ '@' ∉ domain ∧ domain ≠ [] ∧
        redact v .email = first :: stars rest.length ++ '@' :: domain) ∨
      (keptView .email v = .nothing ∧ redact v .email = stars v.length) := by
  unfold redact keptView
  dsimp only
  split
  · rename_i first rest d domain hsplit
    obtain ⟨hv, hat⟩ := (rsplitOnce_eq_some_iff '@' v _ _).mp hsplit
    exact .inl ⟨first, rest, d :: domain, hv, hat, nofun, rfl⟩
  · exact .inr ⟨rfl, rfl⟩

/-- Redaction keeps the number of characters. -/
theorem redact_length (v : Text) (mode : RedactMode) : (redact v mode).length = v.length := by
  cases mode with
  | all => exact stars_length _
  | last4 =>
    simp only [redact, List.length_append, stars_length, List.length_drop]
    omega
  | first4 =>
    simp only [redact, List.length_append, stars_length, List.length_take]
    omega
  | email =>
    rcases redact_email_cases v with ⟨first, rest, domain, rfl, -, -, h⟩ | ⟨-, h⟩
    · rw [h]
      simp only [List.length_append, List.length_cons, stars_length]
    · rw [h, stars_length]

/-- The redacted value is painted from the length and the kept view. -/
theorem redact_eq_paint (v : Text) (mode : RedactMode) :
    redact v mode = paint v.length (keptView mode v) := by
  cases mode with
  | all => rfl
  | last4 =>
    have hkept : (v.drop (v.length - min 4 v.length)).length = min 4 v.length := by
      rw [List.length_drop]
      omega
    rw [redact, keptView, paint, hkept]
  | first4 =>
    have hkept : (v.take (min 4 v.length)).length = min 4 v.length := by
      rw [List.length_take]
      omega
    rw [redact, keptView, paint, hkept]
  | email =>
    rcases redact_email_cases v with ⟨first, rest, domain, rfl, hat, hdomain, h⟩ | ⟨hview, h⟩
    · have hrest : (first :: rest ++ '@' :: domain).length - (domain.length + 2) = rest.length := by
        simp only [List.length_append, List.length_cons]
        omega
      rw [h, keptView_address hat hdomain, paint, hrest]
    · rw [h, hview, paint]

/-- The kept view is read off the redacted value. -/
theorem keptView_redact (v : Text) (mode : RedactMode) :
    keptView mode (redact v mode) = keptView mode v := by
  have hlen := redact_length v mode
  cases mode with
  | all => rfl
  | last4 => rw [keptView, hlen, keptView, redact, List.drop_left' (stars_length _)]
  | first4 =>
    have hkept : (v.take (min 4 v.length)).length = min 4 v.length := by
      rw [List.length_take]
      omega
    rw [keptView, hlen, keptView, redact, List.take_left' hkept]
  | email =>
    rcases redact_email_cases v with ⟨first, rest, domain, rfl, hat, hdomain, h⟩ | ⟨hview, h⟩
    · rw [h, keptView_address hat hdomain, keptView_address hat hdomain]
    · rw [h, hview, keptView_email_of_notMem (at_notMem_stars _)]

/-- Two values are redacted alike exactly when they have one length and one kept view. -/
theorem redact_eq_iff (mode : RedactMode) (v w : Text) :
    redact v mode = redact w mode ↔ v.length = w.length ∧ keptView mode v = keptView mode w := by
  constructor
  · intro h
    constructor
    · rw [← redact_length v mode, h, redact_length]
    · rw [← keptView_redact v mode, h, keptView_redact]
  · intro ⟨hlen, hview⟩
    rw [redact_eq_paint, redact_eq_paint, hlen, hview]

end VgiMask
