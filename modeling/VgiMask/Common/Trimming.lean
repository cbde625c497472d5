import Mathlib.Data.List.DropRight

/-!
# Trimming at both ends

Trimming removes the pads at both ends of a list. It does not see pads that are added there, it
is done after one go, and it commutes with relabellings that respect pads.
-/

namespace Common

variable {α : Type} (p : α → Bool)

variable {p} {pads pads' xs : List α}

end Common
