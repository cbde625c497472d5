import VgiMask.Common.Outcome

/-!
# Profile names, mode names and engine errors

A Rust string is modelled by the list of its characters; Lean's `Char` is exactly a Unicode
scalar value. Names are trimmed and lowered before they are compared, and an unknown name
is reported in that form.
-/

namespace VgiMask

open Common

/-- The characters of a string. -/
abbrev Text := List Char

/-- The errors the engine can return. -/
inductive MaskError where
  | emptyKey
  | unknownFormat (name : Text)
  | unknownMode (name : Text)
  | fpe (reason : Text)
  deriving DecidableEq

/-- The displayed text of an error. -/
def MaskError.display : MaskError → Text
  | .emptyKey => "mask key must be a non-empty string".toList
  | .unknownFormat s =>
    "unknown mask format '".toList ++ s ++
      "' (expected one of: digits, alnum, card, ssn, email)".toList
  | .unknownMode s =>
    "unknown redact mode '".toList ++ s ++
      "' (expected one of: last4, first4, email, all)".toList
  | .fpe e => "format-preserving encryption failed: ".toList ++ e

/-- The shape preserved under format-preserving encryption. -/
inductive Format where
  | digits
  | alnum
  | card
  | ssn
  | email
  deriving DecidableEq, Repr

/-- The irreversible redactions. -/
inductive RedactMode where
  | last4
  | first4
  | email
  | all
  deriving DecidableEq, Repr

/-- The characters with Unicode property `White_Space`. -/
def isWhitespace (c : Char) : Bool :=
  let n := c.toNat
  (0x09 ≤ n && n ≤ 0x0d) || n = 0x20 || n = 0x85 || n = 0xa0 || n = 0x1680 ||
    (0x2000 ≤ n && n ≤ 0x200a) || n = 0x2028 || n = 0x2029 || n = 0x202f || n = 0x205f ||
    n = 0x3000

/-- Remove white space at both ends. -/
def trim (s : Text) : Text := ((s.dropWhile isWhitespace).reverse.dropWhile isWhitespace).reverse

/-- Lower the ASCII capitals. -/
def toAsciiLowercase (s : Text) : Text := s.map Char.toLower

/-- Parse a profile name. -/
def Format.parse (name : Text) : Outcome MaskError Format :=
  let lowered := toAsciiLowercase (trim name)
  match String.ofList lowered with
  | "digits" | "digit" => .ok .digits
  | "alnum" | "alphanumeric" => .ok .alnum
  | "card" | "pan" | "ccn" => .ok .card
  | "ssn" => .ok .ssn
  | "email" | "mail" => .ok .email
  | _ => .err (.unknownFormat lowered)

/-- Parse a mode name. -/
def RedactMode.parse (name : Text) : Outcome MaskError RedactMode :=
  let lowered := toAsciiLowercase (trim name)
  match String.ofList lowered with
  | "last4" => .ok .last4
  | "first4" => .ok .first4
  | "email" => .ok .email
  | "all" | "full" => .ok .all
  | _ => .err (.unknownMode lowered)

/-- A profile name parses or is reported unknown. -/
theorem Format.parse_cases (name : Text) :
    (∃ f, Format.parse name = .ok f) ∨
      Format.parse name = .err (.unknownFormat (toAsciiLowercase (trim name))) := by
  unfold Format.parse
  dsimp only
  split <;> simp

/-- A mode name parses or is reported unknown. -/
theorem RedactMode.parse_cases (name : Text) :
    (∃ m, RedactMode.parse name = .ok m) ∨
      RedactMode.parse name = .err (.unknownMode (toAsciiLowercase (trim name))) := by
  unfold RedactMode.parse
  dsimp only
  split <;> simp

/-- Parsing a profile name answers. -/
theorem Format.parse_answers (name : Text) : (Format.parse name).Answers := by
  rcases Format.parse_cases name with ⟨f, hf⟩ | hf
  · rw [hf]
    exact ⟨nofun, nofun⟩
  · rw [hf]
    exact ⟨nofun, nofun⟩

/-- Parsing a mode name answers. -/
theorem RedactMode.parse_answers (name : Text) : (RedactMode.parse name).Answers := by
  rcases RedactMode.parse_cases name with ⟨m, hm⟩ | hm
  · rw [hm]
    exact ⟨nofun, nofun⟩
  · rw [hm]
    exact ⟨nofun, nofun⟩

/-- The profile names offered to callers. -/
def Format.canonicalNames : List Text :=
  ["digits".toList, "alnum".toList, "card".toList, "ssn".toList, "email".toList]

/-- The mode names offered to callers. -/
def RedactMode.canonicalNames : List Text :=
  ["last4".toList, "first4".toList, "email".toList, "all".toList]

/-- The offered profile names parse to all the profiles, in their order. -/
theorem Format.canonicalNames_parse :
    Format.canonicalNames.mapM Format.parse = .ok [.digits, .alnum, .card, .ssn, .email] := by
  decide

/-- The offered mode names parse to all the modes, in their order. -/
theorem RedactMode.canonicalNames_parse :
    RedactMode.canonicalNames.mapM RedactMode.parse = .ok [.last4, .first4, .email, .all] := by
  decide

end VgiMask
