import HandPath.Journal.Basic
import HandPath.Message.Basic
import HandPath.Notation.Compile

/-!
# HandPath.Journal.Compile — the records of a compilation

Every segment that compiles gives a record, in order, also if a later one fails; a compilation
without a failure ends with a record for the whole.
-/

namespace HandPath.Journal

open Text

/-- Natural numbers between square brackets. -/
def numberList (ns : List Nat) : String := "[" ++ ", ".intercalate (ns.map natText) ++ "]"

/-- The record of the segment of juggler `juggler`. -/
def segmentRecord (juggler : Nat) (s : Segment) : Record :=
  ⟨.debug, .compiler, "hands segment " ++ natText juggler ++ ": period=" ++ natText s.period ++
    " coords=" ++ numberList (s.beats.map Beat.waypointCount)⟩

/-- The record of a text that has compiled as a whole. -/
def patternRecord (p : Pattern) : Record :=
  ⟨.debug, .compiler, "compiled hands: jugglers=" ++ natText p.jugglers ++ " periods=" ++
    numberList (p.segments.map Segment.period)⟩

/-- The records of a run: one for every segment that has compiled, and one more if none has failed.
-/
def runRecords (r : Notation.Run) : List Record :=
  r.finished.mapIdx (fun i s => segmentRecord (i + 1) s) ++
    match r.result with
    | .ok p => [patternRecord p]
    | .error _ => []

end HandPath.Journal
