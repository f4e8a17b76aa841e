/-!
# HandPath.Notation.Fault — what can be wrong with a text

A `Violation` is one of twelve kinds of mistake together with what the message about it names; a
`Fault` adds the segment (counted from one) and the beat (counted from zero) where they are known.
Reading can fail in three further ways that are no mistake of a kind (`Failure`).
-/

namespace HandPath

/-- The kinds of mistake, in the order of the message table. -/
inductive Kind where
  | emptyNotation
  | badCharacter
  | tooFewCoords
  | badEnding
  | throwNotStart
  | tooManyThrows
  | catchAtStart
  | tooManyCatches
  | noParen
  | badCoordinate
  | noThrowCoord
  | noCatchCoord
deriving DecidableEq, Repr

namespace Kind

/-- All kinds, in the order of the message table. -/
def all : List Kind :=
  [emptyNotation, badCharacter, tooFewCoords, badEnding, throwNotStart, tooManyThrows, catchAtStart,
    tooManyCatches, noParen, badCoordinate, noThrowCoord, noCatchCoord]

/-- The key of the kind in the message table and in answers. -/
def name : Kind → String
  | emptyNotation => "empty_notation"
  | badCharacter => "bad_character"
  | tooFewCoords => "too_few_coords"
  | badEnding => "bad_ending"
  | throwNotStart => "throw_not_start"
  | tooManyThrows => "too_many_throws"
  | catchAtStart => "catch_at_start"
  | tooManyCatches => "too_many_catches"
  | noParen => "no_paren"
  | badCoordinate => "bad_coordinate"
  | noThrowCoord => "no_throw_coord"
  | noCatchCoord => "no_catch_coord"

def ofName? (s : String) : Option Kind := all.find? (·.name == s)

theorem mem_all (k : Kind) : k ∈ all := by cases k <;> decide

theorem ofName?_name (k : Kind) : ofName? k.name = some k := by cases k <;> decide

end Kind

/-- A mistake: the two kinds whose message names something carry it. -/
inductive Violation where
  | emptyNotation
  | badCharacter (c : Char)
  | tooFewCoords
  | badEnding
  | throwNotStart
  | tooManyThrows
  | catchAtStart
  | tooManyCatches
  | noParen
  /-- The text is the inside of the whole group. -/
  | badCoordinate (inside : List Char)
  | noThrowCoord
  | noCatchCoord
deriving DecidableEq, Repr

namespace Violation

/-- The kind without what the message names. -/
def kind : Violation → Kind
  | emptyNotation => .emptyNotation
  | badCharacter _ => .badCharacter
  | tooFewCoords => .tooFewCoords
  | badEnding => .badEnding
  | throwNotStart => .throwNotStart
  | tooManyThrows => .tooManyThrows
  | catchAtStart => .catchAtStart
  | tooManyCatches => .tooManyCatches
  | noParen => .noParen
  | badCoordinate _ => .badCoordinate
  | noThrowCoord => .noThrowCoord
  | noCatchCoord => .noCatchCoord

/-- What a message about the violation may name. -/
def arguments : Violation → List (String × String)
  | badCharacter c => [("char", c.toString)]
  | badCoordinate inside => [("text", String.ofList inside)]
  | _ => []

end Violation

/-- A mistake and its place, as far as it is known. -/
structure Fault where
  violation : Violation
  juggler : Option Int
  beat : Option Int
deriving DecidableEq, Repr

/-- Why a text was not read. -/
inductive Failure where
  | fault (f : Fault)
  /-- A group without a component. -/
  | emptyGroup (inside : List Char) (juggler beat : Option Int)
  /-- A numeral next to an information separator, which its value cannot be read with. -/
  | unreadableNumeral (numeral : List Char)
  /-- A beat or waypoint was asked for that the layout of the segment does not have. -/
  | outOfRange
deriving DecidableEq, Repr

/-- A mistake in a segment, at a beat if one is given. -/
def Failure.mistake (v : Violation) (juggler : Option Int) (beat : Option Int) : Failure :=
  .fault ⟨v, juggler, beat⟩

end HandPath
