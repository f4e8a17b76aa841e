import HandPath.Decimal.Shortest
import HandPath.Text.Integer

/-!
# HandPath.Decimal.Format — the text of a binary64 number

A finite number is written with its shortest digits: positionally, with a point and at least one
digit on either side of it, if its first digit stands for a power of ten from `10^-4` to `10^15`,
else with an exponent of at least two digits (`floatChars`). In a group, whole numbers have neither
point nor exponent (`numberChars`).
-/

namespace HandPath.Decimal

open Text

/-- The decisions of a number format. -/
structure Format where
  /-- Powers of ten of the first digit from which numbers are positional. -/
  leastPositional : Int
  /-- The first power of ten of the first digit for which they are not. -/
  firstScientific : Int
  exponentLetter : Char
  exponentDigits : Nat
  infinityText : List Char
  nanText : List Char

/-- Coordinates have exponents from `e-05` down and from `e+16` up. -/
def coordinateFormat : Format where
  leastPositional := -4
  firstScientific := 16
  exponentLetter := 'e'
  exponentDigits := 2
  infinityText := ['i', 'n', 'f']
  nanText := ['n', 'a', 'n']

variable (format : Format)

/-- Zeros in front of a text up to the given width. -/
def padZeros (width : Nat) (cs : List Char) : List Char :=
  List.replicate (width - cs.length) '0' ++ cs

/-- The digits as a number below or above one, whose first digit stands for `10^p`. -/
def positional (digits : List Char) (p : Int) : List Char :=
  if p < 0 then '0' :: '.' :: List.replicate (-p - 1).toNat '0' ++ digits
  else
    let whole := p.toNat + 1
    let fraction := digits.drop whole
    digits.take whole ++ List.replicate (whole - digits.length) '0' ++
      '.' :: if fraction.isEmpty then ['0'] else fraction

/-- The digits with a point after the first, if there are more, and the exponent `p`. -/
def scientific (digits : List Char) (p : Int) : List Char :=
  digits.take 1 ++ (if digits.length ≤ 1 then [] else '.' :: digits.drop 1) ++
    format.exponentLetter :: (if p < 0 then '-' else '+') ::
      padZeros format.exponentDigits (natChars p.natAbs)

/-- The digits of a coefficient without the zeros at its end; one digit for zero. -/
def significantChars (coefficient : Nat) : List Char :=
  let digits := ((natChars coefficient).reverse.dropWhile (· == '0')).reverse
  if digits.isEmpty then ['0'] else digits

/-- The text of a decimal. -/
def chars (d : Decimal) : List Char :=
  let p : Int :=
    if d.coefficient = 0 then 0 else ((natChars d.coefficient).length : Int) - 1 + d.exponent
  let digits := significantChars d.coefficient
  (if d.negative then ['-'] else []) ++
    if format.leastPositional ≤ p ∧ p < format.firstScientific then positional digits p
    else scientific format digits p

end HandPath.Decimal

namespace HandPath.Binary64

open Decimal

/-- The shortest text that reads back as the number. -/
def floatChars : Binary64 → List Char
  | .nan => coordinateFormat.nanText
  | .infinity negative => (if negative then ['-'] else []) ++ coordinateFormat.infinityText
  | .finite negative m e _ => chars coordinateFormat (shortest negative m e)

/-- Whole numbers by all their digits, others by the shortest text. -/
def numberChars (v : Binary64) : List Char :=
  match v.toInt? with
  | some n => Text.intChars n
  | none => v.floatChars

def floatText (v : Binary64) : String := String.ofList v.floatChars

end HandPath.Binary64
