import HandPath.Notation.Group
import HandPath.Notation.Layout
import HandPath.Pattern.Basic

/-!
# HandPath.Notation.Beats — the beats of a segment with their coordinates

Given the layouts of a segment, its groups are read in order, and at the end of each beat the
waypoints of its throw and its catch have to have coordinates. Groups after the last end are read
too, though they belong to no beat.
-/

namespace HandPath.Notation

/-- The coordinate at index `i` must be there; `v` is the violation if the waypoint is left open. -/
def require (v : Violation) (juggler : Int) (n : Nat) (waypoints : List (Option Coordinate))
    (i : Nat) : Except Failure Unit :=
  match waypoints[i]? with
  | none => .error .outOfRange
  | some none => .error (.mistake v juggler (some (n : Int)))
  | some (some _) => .ok ()

/-- Beat `n` with the given waypoints. -/
def closeBeat (juggler : Int) (n : Nat) (layout : BeatLayout)
    (waypoints : List (Option Coordinate)) : Except Failure Beat := do
  require .noThrowCoord juggler n waypoints 0
  require .noCatchCoord juggler n waypoints layout.catchIndex
  return ⟨waypoints, layout.catchIndex⟩

variable (juggler : Int) (s : Scan)

/-- The beats from beat `n` on, whose waypoints so far are given with the latest first, and whose
layouts are those given. -/
def beatsFrom :
    Nat → List (Option Coordinate) → List BeatLayout → List Token → Except Failure (List Beat)
  | _, _, _, [] => s.finish juggler (.ok [])
  | _, _, [], .beatEnd :: _ => .error .outOfRange
  | n, ws, layout :: layouts, .beatEnd :: ts => do
    let beat ← closeBeat juggler n layout ws.reverse
    let beats ← beatsFrom (n + 1) [] layouts ts
    return beat :: beats
  | n, ws, layouts, .blank :: ts => beatsFrom n (none :: ws) layouts ts
  | n, ws, layouts, .group inside :: ts => do
    let c ← readGroup inside juggler (some (n : Int))
    beatsFrom n (some c :: ws) layouts ts
  | n, ws, layouts, .throwMark _ :: ts => beatsFrom n ws layouts ts
  | n, ws, layouts, .catchMark _ :: ts => beatsFrom n ws layouts ts

/-- The beats of a segment that has been laid out. -/
def beats (layouts : List BeatLayout) : Except Failure (List Beat) :=
  beatsFrom juggler s 0 [] layouts s.tokens

end HandPath.Notation
