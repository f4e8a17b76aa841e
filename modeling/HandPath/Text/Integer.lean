import HandPath.Text.Blank
import HandPath.Text.Digit

/-!
# HandPath.Text.Integer — decimal text of integers

Written: no sign before a natural number, a minus sign before a negative one, no leading zeros.
Read: digits of any script with single underscores between them, a sign, and white space around.
The machine neither reads nor writes an integer of more than `maxDigits` digits; the sign is not one
of them.
-/

namespace HandPath.Text

/-- The decimal digits of `n`, the highest first; `0` has one. -/
def natChars (n : Nat) : List Char := Nat.toDigits 10 n

theorem isDigit_of_mem_natChars {n : Nat} {c : Char} (h : c ∈ natChars n) : c.isDigit = true :=
  Nat.isDigit_of_mem_toDigits (by decide) (by decide) h

/-- The decimal text of an integer, character by character. -/
def intChars (n : Int) : List Char :=
  if n < 0 then '-' :: natChars n.natAbs else natChars n.natAbs

def natText (n : Nat) : String := String.ofList (natChars n)

def intText (n : Int) : String := String.ofList (intChars n)

/-! ### The limit -/

/-- The most digits of an integer that is read from a text or written to one. -/
def maxDigits : Nat := 4300

/-- The integer can be written. -/
def isWritable (n : Int) : Bool := (natChars n.natAbs).length ≤ maxDigits

/-- The text of the error of writing an integer that has too many digits. -/
def unwritableText : String :=
  "Exceeds the limit (" ++ natText maxDigits ++ " digits) for integer string conversion; " ++
    "use sys.set_int_max_str_digits() to increase the limit"

/-! ### Reading -/

/-- The values of digits with at most one underscore between two of them; at least one digit. -/
def groupedDigits? : List Char → Option (List Nat)
  | [] => none
  | [c] => (digitValue? c).map ([·])
  | c :: '_' :: cs => do return (← digitValue? c) :: (← groupedDigits? cs)
  | c :: d :: cs => do return (← digitValue? c) :: (← groupedDigits? (d :: cs))

/-- The integer that a text denotes, unless it has too many digits. -/
def intOfText? (s : String) : Option Int := do
  let (negative, cs) := match trimBoth isWhiteSpace s.toList with
    | '-' :: cs => (true, cs)
    | '+' :: cs => (false, cs)
    | cs => (false, cs)
  let digits ← groupedDigits? cs
  if digits.length ≤ maxDigits then
    return if negative then -(ofDigits digits : Int) else ofDigits digits
  else none

end HandPath.Text
