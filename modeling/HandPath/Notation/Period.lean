import HandPath.Notation.Token

/-!
# HandPath.Notation.Period — counting the beats of a segment

A beat ends with a point, the last one too: waypoints after the last point are a fault.
-/

namespace HandPath.Notation

/-- The end of a walk over the tokens of a scan: the fault that ended the scan counts only now. -/
def Scan.finish {α : Type} (s : Scan) (juggler : Int) (result : Except Failure α) :
    Except Failure α :=
  match s.fault with
  | some f => .error (.mistake f.violation juggler none)
  | none => result

/-- The number of ends among the tokens, and whether waypoints follow the last one; `n` and
`pending` are these two for the tokens before. -/
def countEnds : Nat → Bool → List Token → Nat × Bool
  | n, pending, [] => (n, pending)
  | n, _, .beatEnd :: ts => countEnds (n + 1) false ts
  | n, _, .blank :: ts => countEnds n true ts
  | n, _, .group _ :: ts => countEnds n true ts
  | n, pending, .throwMark _ :: ts => countEnds n pending ts
  | n, pending, .catchMark _ :: ts => countEnds n pending ts

/-- The number of beats; waypoints after the last end are a mistake. -/
def period (juggler : Int) (s : Scan) : Except Failure Nat :=
  let (n, pending) := countEnds 0 false s.tokens
  s.finish juggler
    (if pending then .error (.mistake .badEnding juggler (some (n : Int))) else .ok n)

end HandPath.Notation
