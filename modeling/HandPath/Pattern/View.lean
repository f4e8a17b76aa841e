import HandPath.Document.Basic
import HandPath.Pattern.Canonical

/-!
# HandPath.Pattern.View — a pattern as a document

The view lists every segment with its index and period and every beat with its waypoints, and ends
with the canonical text.
-/

namespace HandPath

def Coordinate.view (c : Coordinate) : Document :=
  .object [("x", .number c.x), ("y", .number c.y), ("z", .number c.z)]

/-- The coordinate, or null for a waypoint that is left open. -/
def Coordinate.viewOption : Option Coordinate → Document
  | some c => c.view
  | none => .null

def Beat.view (b : Beat) : Document :=
  .object [("waypoint_count", .natural b.waypointCount), ("catch_index", .integer b.catchIndex),
    ("waypoints", .array (b.waypoints.map Coordinate.viewOption))]

/-- A segment alone. -/
def Segment.view (s : Segment) : Document :=
  .object [("period", .natural s.period), ("beats", .array (s.beats.map Beat.view))]

/-- The segment with index `i` in its pattern. -/
def Segment.indexedView (i : Nat) (s : Segment) : Document :=
  .object [("segment_index", .natural i), ("period", .natural s.period),
    ("beats", .array (s.beats.map Beat.view))]

/-- The whole pattern with its canonical text, as it is answered and printed. -/
def Pattern.view (p : Pattern) : Document :=
  .object [("jugglers", .natural p.jugglers),
    ("segments", .array (p.segments.mapIdx Segment.indexedView)),
    ("canonical", .string p.canonical)]

end HandPath
