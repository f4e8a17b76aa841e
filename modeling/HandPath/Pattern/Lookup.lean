import HandPath.Pattern.Basic
import HandPath.Text.Integer

/-!
# HandPath.Pattern.Lookup — questions to a pattern

Jugglers are counted from one, beats and waypoints from zero, and all three may be any integers. A
pattern with fewer segments than jugglers is used again from its start, so juggler `j` has the
segment with index `(j - 1) mod jugglers`. A beat that the segment does not have is an error where
the beat itself is asked for; asking for a coordinate is total.

The error names the juggler, the beat and the period. If one of them has too many digits to be
written, that is the error instead.
-/

namespace HandPath

/-- Why a question has no answer. -/
inductive LookupError where
  /-- The pattern has no segment. -/
  | noSegments
  | beatOutOfRange (juggler beat : Int) (period : Nat)
  /-- The beat is out of range, and a number of the message has too many digits. -/
  | unwritable
deriving DecidableEq, Repr

/-- The error of a beat that a segment of `period` beats does not have. -/
def LookupError.outOfRange (juggler beat : Int) (period : Nat) : LookupError :=
  if [juggler, beat, period].all Text.isWritable then .beatOutOfRange juggler beat period
  else .unwritable

def LookupError.message : LookupError → String
  | .noSegments => "integer modulo by zero"
  | .beatOutOfRange juggler beat period =>
    "beat 超界：juggler=" ++ Text.intText juggler ++ " beat=" ++ Text.intText beat ++ " period=" ++
      Text.natText period
  | .unwritable => Text.unwritableText

namespace Pattern

variable (p : Pattern) (juggler n index : Int)

/-- The index of the juggler's segment, in `[0, jugglers)`. -/
def segmentIndex : Except LookupError Nat :=
  if p.segments.isEmpty then .error .noSegments
  else .ok ((juggler - 1) % (p.jugglers : Int)).toNat

/-- The juggler's segment. -/
def segment : Except LookupError Segment := do
  let i ← p.segmentIndex juggler
  match p.segments[i]? with
  | some s => .ok s
  | none => .error .noSegments

/-- The number of beats in the juggler's segment. -/
def period : Except LookupError Nat := return (← p.segment juggler).period

/-- The beat with number `n`. -/
def beat : Except LookupError Beat := do
  let s ← p.segment juggler
  match s.beat? n with
  | some b => .ok b
  | none => .error (.outOfRange juggler n s.period)

def waypointCount : Except LookupError Nat := return (← p.beat juggler n).waypointCount

/-- The index of the catch; the throw has index zero. -/
def catchIndex : Except LookupError Int := return (← p.beat juggler n).catchIndex

/-- The coordinate of a waypoint, `none` where it is left open or there is no such waypoint. -/
def coordinate : Except LookupError (Option Coordinate) := do
  let s ← p.segment juggler
  return (s.beat? n).bind (·.coordinate? index)

end Pattern

end HandPath
