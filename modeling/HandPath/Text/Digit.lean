import HandPath.Text.Ranges

/-!
# HandPath.Text.Digit — decimal digits of every script, and hexadecimal ones

Unicode 14 encodes the decimal digits of a script as ten neighbouring characters in the order of
their values, so a digit is known by the zero of its script.
-/

namespace HandPath.Text

/-- The zeros of the scripts, in ascending order. -/
def digitZeros : List Nat :=
  [0x30, 0x660, 0x6F0, 0x7C0, 0x966, 0x9E6, 0xA66, 0xAE6, 0xB66, 0xBE6, 0xC66, 0xCE6, 0xD66,
    0xDE6, 0xE50, 0xED0, 0xF20, 0x1040, 0x1090, 0x17E0, 0x1810, 0x1946, 0x19D0, 0x1A80, 0x1A90,
    0x1B50, 0x1BB0, 0x1C40, 0x1C50, 0xA620, 0xA8D0, 0xA900, 0xA9D0, 0xA9F0, 0xAA50, 0xABF0,
    0xFF10, 0x104A0, 0x10D30, 0x11066, 0x110F0, 0x11136, 0x111D0, 0x112F0, 0x11450, 0x114D0,
    0x11650, 0x116C0, 0x11730, 0x118E0, 0x11950, 0x11C50, 0x11D50, 0x11DA0, 0x16A60, 0x16AC0,
    0x16B50, 0x1D7CE, 0x1D7D8, 0x1D7E2, 0x1D7EC, 0x1D7F6, 0x1E140, 0x1E2F0, 0x1E950, 0x1FBF0]

/-- The value of a decimal digit of any script, `none` for any other character. -/
def digitValue? (c : Char) : Option Nat :=
  (digitZeros.find? fun z => z ≤ c.toNat && c.toNat < z + 10).map (c.toNat - ·)

/-- A digit as the decimal text of numbers writes it. -/
def isAsciiDigit (c : Char) : Bool := 0x30 ≤ c.toNat && c.toNat ≤ 0x39

/-- A decimal digit of any script. -/
def isDigit (c : Char) : Bool := (digitValue? c).isSome

/-- The values of the digits that the text starts with, and the rest of the text. -/
def digitRun (cs : List Char) : List Nat × List Char :=
  ((cs.takeWhile isDigit).filterMap digitValue?, cs.dropWhile isDigit)

/-- The natural number that a list of digit values denotes, the highest digit first. -/
def ofDigits (ds : List Nat) : Nat := ds.foldl (fun n d => 10 * n + d) 0

/-- The value of a hexadecimal digit, in either case. -/
def hexDigitValue? (c : Char) : Option Nat :=
  if inRanges [(0x30, 0x39)] c then some (c.toNat - 0x30)
  else if inRanges [(0x41, 0x46)] c then some (c.toNat - 0x41 + 10)
  else if inRanges [(0x61, 0x66)] c then some (c.toNat - 0x61 + 10)
  else none

end HandPath.Text
