import HandPath.Coordinate
import HandPath.Decimal.Numeral
import HandPath.Notation.Fault
import HandPath.Text.Pieces

/-!
# HandPath.Notation.Group — reading a coordinate group

The components of a group are the nonempty pieces between commas. Only the first three count, and
each has to be a numeral whose nearest binary64 number is finite. The first one that fails decides
the failure.
-/

namespace HandPath.Notation

open Text

variable (inside : List Char) (juggler beat : Option Int)

/-- The components that count. -/
def components : List (List Char) := (pieces (· = ',') inside).take 3

/-- The number that a component of the group denotes. -/
def readComponent (component : List Char) : Except Failure Binary64 :=
  match Decimal.ofNumeral? component with
  | none => .error (.mistake (.badCoordinate inside) juggler beat)
  | some d =>
    if component.any isInformationSeparator then .error (.unreadableNumeral component)
    else if d.toBinary64.isFinite then .ok d.toBinary64
    else .error (.mistake (.badCoordinate inside) juggler beat)

/-- The coordinate that the inside of a group denotes. -/
def readGroup : Except Failure Coordinate :=
  if (components inside).isEmpty then .error (.emptyGroup inside juggler beat)
  else return .ofGroupValues (← (components inside).mapM (readComponent inside juggler beat))

end HandPath.Notation
