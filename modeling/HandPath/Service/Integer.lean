import HandPath.Service.Complaint
import HandPath.Text.Blank
import HandPath.Text.Digit
import HandPath.Text.Pieces

/-!
# HandPath.Service.Integer — the integers that a field may hold

An integer may be given as itself, as a number without a fraction, as a truth value, or as a text.
The plain text of an integer has a minus sign or none and digits of ASCII without leading zeros. A
text that is not plain is stripped first: white space around, a plus sign, leading zeros, a point
with zeros after it, and single underscores inside count for nothing. A minus sign may stand before
the leading zeros or after them. Numbers with a point are bounded, and so is the count of digits of
a text, but not the size of an integer given as itself.
-/

namespace HandPath.Service

open Text

/-- The most digits that the text of an integer may have. -/
def maxDigits : Nat := 4300

/-- A minus sign, if there is one, and the rest. -/
def minusOf : List Char → Bool × List Char
  | '-' :: cs => (true, cs)
  | cs => (false, cs)

/-- The integer of a plain text. The digits are counted before it is seen what follows them. -/
def readPlain (cs : List Char) : Except Complaint Int :=
  let (negative, magnitude) := minusOf cs
  let digits := magnitude.takeWhile isAsciiDigit
  let rest := magnitude.dropWhile isAsciiDigit
  let n : Int := ofDigits (digits.filterMap digitValue?)
  match digits with
  | [] => .error .unreadableInteger
  | '0' :: _ => if magnitude = ['0'] then .ok 0 else .error .unreadableInteger
  | _ =>
    if maxDigits < digits.length then .error .oversizedInteger
    else if rest.isEmpty then .ok (if negative then -n else n)
    else .error .unreadableInteger

/-! ### Stripping -/

/-- What is left after zeros and underscores, the last of which is given: it is kept before a point
and at the end. -/
def afterZeros? (last : Char) : List Char → Option (List Char)
  | [] => some [last]
  | c :: cs =>
    if c = '0' ∨ c = '_' then afterZeros? c cs
    else if c = '.' then some (last :: c :: cs)
    else if isAsciiDigit c || c = '-' then some (c :: cs)
    else none

/-- The text without leading zeros; it must begin with a digit. -/
def withoutZeros? : List Char → Option (List Char)
  | [] => none
  | c :: cs =>
    if c = '0' then afterZeros? c cs
    else if isAsciiDigit c then some (c :: cs)
    else none

/-- The text without a plus sign at its start and without leading zeros after a sign or none. -/
def withoutPlusAndZeros? : List Char → Option (List Char)
  | '+' :: cs => withoutZeros? cs
  | '-' :: cs => (withoutZeros? cs).map ('-' :: ·)
  | cs => withoutZeros? cs

/-- The text without its point, if only zeros follow that and at least one. -/
def withoutFraction (cs : List Char) : List Char :=
  match cs.dropWhile (· ≠ '.') with
  | _ :: z :: zs => if (z :: zs).all (· = '0') then cs.takeWhile (· ≠ '.') else cs
  | _ => cs

/-- No underscore stands at an end of the text or beside another one. -/
def hasSingleUnderscores (cs : List Char) : Bool := (cut (· = '_') cs).all (!·.isEmpty)

/-- The text without its underscores, if they are single ones. -/
def withoutUnderscores (cs : List Char) : List Char :=
  if hasSingleUnderscores cs then cs.filter (· ≠ '_') else cs

/-- What is left of a text without all that counts for nothing. -/
def stripped? (cs : List Char) : Option (List Char) :=
  (withoutPlusAndZeros? (trimBoth isWhiteSpace cs)).map fun cs =>
    withoutUnderscores (withoutFraction cs)

/-! ### Reading -/

/-- The integer of a text, as it stands or else stripped. Only of a text as it stands is it said
that it has too many digits. -/
def readIntegerText (cs : List Char) : Except Complaint Int :=
  match readPlain cs, (stripped? cs).map readPlain with
  | .error .unreadableInteger, some (.ok n) => .ok n
  | .error .unreadableInteger, _ => .error .unreadableInteger
  | result, _ => result

/-- The integer that a number with a point is, if it lies strictly between the bounds ±2^63. -/
def readIntegerNumber (v : Binary64) : Except Complaint Int :=
  if v.isFinite then
    match v.toInt? with
    | some n => if n.natAbs < Binary64.twoPow 63 then .ok n else .error .oversizedInteger
    | none => .error .fraction
  else .error .notFinite

/-- The integer that a field holds. -/
def readInteger : Document → Except Complaint Int
  | .integer n => .ok n
  | .bool b => .ok (if b then 1 else 0)
  | .number v => readIntegerNumber v
  | .string s => readIntegerText s.toList
  | _ => .error .notInteger

end HandPath.Service
