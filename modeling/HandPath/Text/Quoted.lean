import HandPath.Text.Printable

/-!
# HandPath.Text.Quoted — text between quotes on one line

Quoted text stands between apostrophes, or between double quotes if it holds an apostrophe and no
double quote. The quote in use and the backslash are escaped by a backslash; line feed, carriage
return and tab have letters; any other character that is not printable is written by its code in
hexadecimal, with two, four or eight digits. So a quoted text holds printable characters only.
-/

namespace HandPath.Text

/-- The last `width` hexadecimal digits of `n`, in lower case. -/
def hexDigits : Nat → Nat → List Char
  | 0, _ => []
  | width + 1, n => hexDigits width (n / 16) ++ [Nat.digitChar (n % 16)]

theorem length_hexDigits (width n : Nat) : (hexDigits width n).length = width := by
  induction width generalizing n with
  | zero => rfl
  | succ w ih => simp [hexDigits, ih]

def apostrophe : Char := '\x27'
def doubleQuote : Char := '\x22'
def backslash : Char := '\x5c'

/-- The quote that a text is put between. -/
def quoteFor (cs : List Char) : Char :=
  if cs.contains apostrophe && !cs.contains doubleQuote then doubleQuote else apostrophe

/-- How one character is written between two marks `quote`. -/
def escape (quote c : Char) : List Char :=
  if c = quote ∨ c = backslash then [backslash, c]
  else if c = '\n' then [backslash, 'n']
  else if c = '\r' then [backslash, 'r']
  else if c = '\t' then [backslash, 't']
  else if isPrintable c then [c]
  else if c.toNat < 0x100 then backslash :: 'x' :: hexDigits 2 c.toNat
  else if c.toNat < 0x10000 then backslash :: 'u' :: hexDigits 4 c.toNat
  else backslash :: 'U' :: hexDigits 8 c.toNat

/-- The text between quotes that it does not need to escape, if there are such. -/
def quotedChars (cs : List Char) : List Char :=
  quoteFor cs :: cs.flatMap (escape (quoteFor cs)) ++ [quoteFor cs]

/-- The text as messages and lines quote it. -/
def quoted (s : String) : String := String.ofList (quotedChars s.toList)

/-- The texts quoted, between square brackets and parted by commas. -/
def quotedList (texts : List String) : String :=
  "[" ++ ", ".intercalate (texts.map quoted) ++ "]"

end HandPath.Text
