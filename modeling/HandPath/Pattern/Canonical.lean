import HandPath.Pattern.Basic

/-!
# HandPath.Pattern.Canonical — the canonical text of a pattern

Every beat begins with its throw mark; the catch mark is written only if the catch is not at the
last waypoint; groups leave out zeros at their end; segments are parted by a bar. A segment without
beats is a space, so that it still counts as a segment when the text is read.
-/

namespace HandPath

/-- The waypoints of a beat from index `i` on, the catch mark among them. -/
def Beat.waypointChars (catchIndex : Int) : Int → List (Option Coordinate) → List Char
  | _, [] => []
  | i, w :: ws =>
    (if i = catchIndex ∧ ws ≠ [] then ['C'] else []) ++
      (match w with
        | some c => c.groupChars
        | none => ['-']) ++
      Beat.waypointChars catchIndex (i + 1) ws

/-- The waypoints of a beat with its marks, and the end of the beat. -/
def Beat.canonicalChars (b : Beat) : List Char :=
  'T' :: Beat.waypointChars b.catchIndex 0 b.waypoints ++ ['.']

def Segment.canonicalChars (s : Segment) : List Char :=
  if s.beats.isEmpty then [' '] else s.beats.flatMap Beat.canonicalChars

def Pattern.canonicalChars (p : Pattern) : List Char :=
  ['|'].intercalate (p.segments.map Segment.canonicalChars)

/-- The canonical text of the pattern. -/
def Pattern.canonical (p : Pattern) : String := String.ofList p.canonicalChars

end HandPath
