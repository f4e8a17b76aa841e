import HandPath.Notation.Period

/-!
# HandPath.Notation.Layout — the number of waypoints of each beat and the place of its catch

A throw mark stands at the start of its beat, once. A catch mark stands after the first waypoint,
once, and marks the waypoint that follows it; without one the catch is at the last waypoint. A beat
has two waypoints or more. The first token that breaks a rule is the fault.
-/

namespace HandPath.Notation

/-- The shape of a beat: how many waypoints it has and which of them is the catch. -/
structure BeatLayout where
  waypointCount : Nat
  catchIndex : Nat
deriving DecidableEq, Repr

/-- What the tokens of an unfinished beat have shown. -/
structure BeatMarks where
  count : Nat
  thrown : Bool
  catchAt : Option Nat
deriving DecidableEq, Repr

namespace BeatMarks

/-- A beat before its first token. -/
def start : BeatMarks := ⟨0, false, none⟩

variable (m : BeatMarks)

/-- The marks after a waypoint. -/
def waypoint : BeatMarks := { m with count := m.count + 1 }

/-- The marks after a throw mark, which must be the only one and stand before every waypoint. -/
def throwMark : Except Violation BeatMarks :=
  if m.count ≠ 0 then .error .throwNotStart
  else if m.thrown then .error .tooManyThrows
  else .ok { m with thrown := true }

/-- The marks after a catch mark, which must be the only one and have the throw before it. -/
def catchMark : Except Violation BeatMarks :=
  if m.count = 0 then .error .catchAtStart
  else if m.catchAt.isSome then .error .tooManyCatches
  else .ok { m with catchAt := some m.count }

/-- The layout of the beat if it ends here. -/
def close : Except Violation BeatLayout :=
  if m.count < 2 then .error .tooFewCoords
  else match m.catchAt with
    | none => .ok ⟨m.count, m.count - 1⟩
    | some k => if m.count ≤ k then .error .noCatchCoord else .ok ⟨m.count, k⟩

/-- One token that does not end the beat. -/
def next : Token → Except Violation BeatMarks
  | .throwMark _ => m.throwMark
  | .catchMark _ => m.catchMark
  | _ => .ok m.waypoint

end BeatMarks

/-- A violation at beat `n` of the segment. -/
def located {α : Type} (juggler : Int) (n : Nat) (r : Except Violation α) : Except Failure α :=
  r.mapError fun v => .mistake v juggler (some (n : Int))

variable (juggler : Int) (s : Scan)

/-- The layouts of beat `n`, which has the marks `m` so far, and of all beats after it. -/
def layoutsFrom : Nat → BeatMarks → List Token → Except Failure (List BeatLayout)
  | _, _, [] => s.finish juggler (.ok [])
  | n, m, .beatEnd :: ts => do
    let layout ← located juggler n m.close
    let layouts ← layoutsFrom (n + 1) .start ts
    return layout :: layouts
  | n, m, t :: ts => do
    let m ← located juggler n (m.next t)
    layoutsFrom n m ts

/-- One layout for each point of the segment. -/
def layouts : Except Failure (List BeatLayout) := layoutsFrom juggler s 0 .start s.tokens

end HandPath.Notation
