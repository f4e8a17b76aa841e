import HandPath.Decimal.Basic
import HandPath.Text.Blank
import HandPath.Text.Digit

/-!
# HandPath.Decimal.Numeral — reading a decimal numeral

A numeral is a sign (optional), digits with at most one point among or around them, at least one
digit in all, and an exponent (optional): `e` or `E`, a sign (optional) and digits. Digits of every
script count, also mixed. Blanks may stand before and after.
-/

namespace HandPath

namespace Decimal

open Text

/-- An optional sign, true for minus, and the rest. -/
def signOf : List Char → Bool × List Char
  | '-' :: cs => (true, cs)
  | '+' :: cs => (false, cs)
  | cs => (false, cs)

/-- The digits before the point, those after it, and the rest. -/
def mantissaOf (cs : List Char) : List Nat × List Nat × List Char :=
  let (whole, rest) := digitRun cs
  match rest with
  | '.' :: cs => (whole, digitRun cs)
  | _ => (whole, [], rest)

/-- The exponent that the text starts with, `0` if it starts with none, and the rest; `none` if the
letter of an exponent has no digits. -/
def exponentOf? : List Char → Option (Int × List Char)
  | c :: cs =>
    if c = 'e' ∨ c = 'E' then
      let (negative, cs) := signOf cs
      let (digits, rest) := digitRun cs
      if digits.isEmpty then none
      else some (if negative then -(ofDigits digits : Int) else ofDigits digits, rest)
    else some (0, c :: cs)
  | [] => some (0, [])

/-- The decimal that a text denotes, `none` if it is no numeral. -/
def ofNumeral? (cs : List Char) : Option Decimal := do
  let (negative, cs) := signOf (cs.dropWhile isBlank)
  let (whole, fraction, cs) := mantissaOf cs
  if whole.isEmpty && fraction.isEmpty then none
  let (exponent, cs) ← exponentOf? cs
  if cs.all isBlank then
    some ⟨negative, ofDigits (whole ++ fraction), exponent - fraction.length⟩
  else none

end Decimal

/-- The number that a text denotes: a numeral, `nan`, or `inf` with an optional sign. -/
def Binary64.ofText? (cs : List Char) : Option Binary64 :=
  match Decimal.signOf cs with
  | (_, ['n', 'a', 'n']) => some .nan
  | (negative, ['i', 'n', 'f']) => some (.infinity negative)
  | _ => (Decimal.ofNumeral? cs).map Decimal.toBinary64

end HandPath
