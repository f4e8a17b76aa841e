import HandPath.Coordinate

/-!
# HandPath.Pattern.Basic — beats, segments and patterns

A pattern has one segment for each juggler it describes, a segment is a cycle of beats, a beat is a
list of waypoints. The hand throws at the first waypoint of a beat and catches at the waypoint with
index `catchIndex`; a waypoint without a coordinate is left to interpolation. `==` compares the
values of coordinates. Nothing here demands that the catch index is in range: that is what
`Pattern.WellFormed` says, and what compiling guarantees.
-/

namespace HandPath

/-- One throw to the next; the throw is the first waypoint. -/
structure Beat where
  waypoints : List (Option Coordinate)
  catchIndex : Int
deriving BEq, Inhabited

/-- The cycle of one juggler's hands. -/
structure Segment where
  beats : List Beat
deriving BEq, Inhabited

/-- The segments, the first one for juggler 1. -/
structure Pattern where
  segments : List Segment
deriving BEq, Inhabited

def Beat.waypointCount (b : Beat) : Nat := b.waypoints.length

/-- The number of beats of the cycle. -/
def Segment.period (s : Segment) : Nat := s.beats.length

def Pattern.jugglers (p : Pattern) : Nat := p.segments.length

/-- The waypoint at index `i`, if there is one and it has a coordinate. -/
def Beat.coordinate? (b : Beat) (i : Int) : Option Coordinate :=
  if i < 0 then none else (b.waypoints[i.toNat]?).join

/-- The beat with number `n`, counted from zero. -/
def Segment.beat? (s : Segment) (n : Int) : Option Beat :=
  if n < 0 then none else s.beats[n.toNat]?

/-! ### What a compiled pattern promises -/

/-- The throw and the catch are two different waypoints with finite coordinates. -/
structure Beat.WellFormed (b : Beat) : Prop where
  two_le : 2 ≤ b.waypointCount
  one_le_catchIndex : 1 ≤ b.catchIndex
  catchIndex_lt : b.catchIndex < b.waypointCount
  throw_isSome : (b.coordinate? 0).isSome
  catch_isSome : (b.coordinate? b.catchIndex).isSome
  isFinite : ∀ c, some c ∈ b.waypoints → c.isFinite

/-- At least one segment, and well-formed beats only; a segment may be without beats. -/
structure Pattern.WellFormed (p : Pattern) : Prop where
  segments_ne_nil : p.segments ≠ []
  beats : ∀ s ∈ p.segments, ∀ b ∈ s.beats, b.WellFormed

end HandPath
