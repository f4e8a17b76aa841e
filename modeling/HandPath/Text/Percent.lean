import HandPath.Text.Digit

/-!
# HandPath.Text.Percent — characters written as a percent sign and two digits

A percent sign with two hexadecimal digits stands for a byte; any other percent sign stands for
itself, as every other character does.
-/

namespace HandPath.Text

/-- The character of a byte of ASCII; the replacement character for any other byte. -/
def charOfByte (n : Nat) : Char := if n < 0x80 then Char.ofNat n else '\uFFFD'

/-- The text that is meant. -/
def percentDecode : List Char → List Char
  | [] => []
  | '%' :: a :: b :: cs =>
    match hexDigitValue? a, hexDigitValue? b with
    | some m, some n => charOfByte (16 * m + n) :: percentDecode cs
    | _, _ => '%' :: percentDecode (a :: b :: cs)
  | c :: cs => c :: percentDecode cs

end HandPath.Text
