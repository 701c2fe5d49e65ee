/-!
# Decimal digits of every script

Numbers may be written with the decimal digits of any script. This module holds the Unicode
table of decimal digits: each script's ten digits are consecutive, so the table lists the zeros.

## Main definitions

* `Text.digitValue?`: the value of a decimal digit, of any script.
* `Text.natOfDigits`: the number that a row of digit values denotes in base ten.
* `Text.digitLimit`: how many digits an integer may have that is read or shown.
-/

namespace Elementary.Text

/-- The code points of the digit **zero** of every script; the nine other digits follow it. -/
def digitZeros : Array Nat :=
  #[
    0x30, 0x660, 0x6f0, 0x7c0, 0x966, 0x9e6, 0xa66, 0xae6, 0xb66, 0xbe6, 0xc66, 0xce6, 0xd66,
    0xde6, 0xe50, 0xed0, 0xf20, 0x1040, 0x1090, 0x17e0, 0x1810, 0x1946, 0x19d0, 0x1a80, 0x1a90,
    0x1b50, 0x1bb0, 0x1c40, 0x1c50, 0xa620, 0xa8d0, 0xa900, 0xa9d0, 0xa9f0, 0xaa50, 0xabf0,
    0xff10, 0x104a0, 0x10d30, 0x11066, 0x110f0, 0x11136, 0x111d0, 0x112f0, 0x11450, 0x114d0,
    0x11650, 0x116c0, 0x11730, 0x118e0, 0x11950, 0x11c50, 0x11d50, 0x11da0, 0x16a60, 0x16ac0,
    0x16b50, 0x1d7ce, 0x1d7d8, 0x1d7e2, 0x1d7ec, 0x1d7f6, 0x1e140, 0x1e2f0, 0x1e950, 0x1fbf0]

/-- The value of a decimal digit, of any script. -/
def digitValue? (c : Char) : Option Nat :=
  if c.isDigit then some (c.toNat - '0'.toNat)
  else (digitZeros.find? fun first => first ≤ c.toNat && c.toNat < first + 10).map (c.toNat - ·)

/-- A **decimal digit**, of any script. -/
def isDigit (c : Char) : Bool := (digitValue? c).isSome

/-- The number that a row of digit values, the highest first, denotes in base ten. -/
def natOfDigits (digits : List Nat) : Nat := digits.foldl (fun n d => 10 * n + d) 0

/-- The **most digits** of an integer that is read from a text or shown in one. -/
def digitLimit : Nat := 4300

/-- Whether an integer of some magnitude can be shown. -/
def isShowable (n : Nat) : Bool := n < Nat.pow 10 digitLimit

end Elementary.Text
