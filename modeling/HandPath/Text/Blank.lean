import HandPath.Text.Ranges

/-!
# HandPath.Text.Blank — the blank characters

Two sets are told apart. `isBlank` holds of every character that separates words or lines; the four
information separators U+001C to U+001F are among them. `isWhiteSpace` leaves those four out, which
gives the White_Space property of Unicode. A numeral may stand between blanks, but its value can be
read only if they are white space.
-/

namespace HandPath.Text

def blankRanges : List (Nat × Nat) :=
  [(0x09, 0x0D), (0x1C, 0x20), (0x85, 0x85), (0xA0, 0xA0), (0x1680, 0x1680), (0x2000, 0x200A),
    (0x2028, 0x2029), (0x202F, 0x202F), (0x205F, 0x205F), (0x3000, 0x3000)]

/-- A character that separates words or lines. -/
def isBlank (c : Char) : Bool := inRanges blankRanges c

/-- One of the four separators U+001C to U+001F. -/
def isInformationSeparator (c : Char) : Bool := inRanges [(0x1C, 0x1F)] c

/-- A blank that a value may be read with. -/
def isWhiteSpace (c : Char) : Bool := isBlank c && !isInformationSeparator c

/-- The text without the characters of the class `p` at its two ends. -/
def trimBoth (p : Char → Bool) (cs : List Char) : List Char :=
  ((cs.dropWhile p).reverse.dropWhile p).reverse

end HandPath.Text
