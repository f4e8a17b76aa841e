import HandPath.Decimal.Format
import HandPath.Document.Basic
import HandPath.Text.Quoted

/-!
# HandPath.Document.Indented — documents on several lines

Items and members stand on lines of their own, indented by two spaces a level; an empty list or
object stays on one line. Strings are between double quotes, with escapes for the double quote, the
backslash and the control characters only.
-/

namespace HandPath.Document

open Text

/-- What stands for a character between the quotes. -/
def stringEscape (c : Char) : List Char :=
  if c = doubleQuote ∨ c = backslash then [backslash, c]
  else if c = '\n' then [backslash, 'n']
  else if c = '\r' then [backslash, 'r']
  else if c = '\t' then [backslash, 't']
  else if c = '\x08' then [backslash, 'b']
  else if c = '\x0c' then [backslash, 'f']
  else if c.toNat < 0x20 then backslash :: 'u' :: hexDigits 4 c.toNat
  else [c]

/-- The text between double quotes. -/
def stringChars (s : String) : List Char :=
  doubleQuote :: s.toList.flatMap stringEscape ++ [doubleQuote]

/-- A new line at the given depth. -/
def newline (depth : Nat) : List Char := '\n' :: List.replicate (2 * depth) ' '

/-- Written entries between brackets, one on a line. -/
def bracket (opening closing : Char) (depth : Nat) (entries : List (List Char)) : List Char :=
  if entries.isEmpty then [opening, closing]
  else
    opening :: newline (depth + 1) ++ (',' :: newline (depth + 1)).intercalate entries ++
      newline depth ++ [closing]

mutual

/-- The text of a document whose first line is indented to `depth`. -/
def indentedChars (depth : Nat) : Document → List Char
  | .null => "null".toList
  | .bool b => (if b then "true" else "false").toList
  | .integer n => intChars n
  | .number v => v.floatChars
  | .string s => stringChars s
  | .array items => bracket '[' ']' depth (itemChars (depth + 1) items)
  | .object members => bracket '\x7b' '\x7d' depth (memberChars (depth + 1) members)

/-- The items of an array, each as it is written at a depth. -/
def itemChars (depth : Nat) : List Document → List (List Char)
  | [] => []
  | d :: ds => indentedChars depth d :: itemChars depth ds

/-- The members of an object, each as it is written at a depth. -/
def memberChars (depth : Nat) : List (String × Document) → List (List Char)
  | [] => []
  | (name, d) :: ds =>
    (stringChars name ++ ':' :: ' ' :: indentedChars depth d) :: memberChars depth ds

end

/-- The text of a document, every level two spaces further in. -/
def indented (d : Document) : String := String.ofList (indentedChars 0 d)

end HandPath.Document
