import HandPath.Decimal.Format

/-!
# HandPath.Coordinate — a point of a hand's path

Lengths are centimetres: `x` to the side, `y` in depth, `z` upward. A group writes them in the order
x, z, y and leaves out zeros at its end, so `groupValues` holds the one to three numbers written.
-/

namespace HandPath

/-- A point in space. -/
structure Coordinate where
  x : Binary64
  y : Binary64
  z : Binary64
deriving BEq, Inhabited

namespace Coordinate

/-- All three components are finite. -/
def isFinite (c : Coordinate) : Bool := c.x.isFinite && c.y.isFinite && c.z.isFinite

/-- The point that a group of up to three numbers denotes; a number that is left out is zero. -/
def ofGroupValues : List Binary64 → Coordinate
  | [] => ⟨.zero false, .zero false, .zero false⟩
  | [x] => ⟨x, .zero false, .zero false⟩
  | [x, z] => ⟨x, .zero false, z⟩
  | x :: z :: y :: _ => ⟨x, y, z⟩

/-- The numbers that the group of a point shows. -/
def groupValues (c : Coordinate) : List Binary64 :=
  if !c.y.isZero then [c.x, c.z, c.y]
  else if !c.z.isZero then [c.x, c.z]
  else [c.x]

/-- The point as a group, without its parentheses. -/
def groupInside (c : Coordinate) : List Char :=
  [','].intercalate (c.groupValues.map Binary64.numberChars)

/-- The group that stands for the point in a canonical text. -/
def groupChars (c : Coordinate) : List Char := '(' :: c.groupInside ++ [')']

theorem groupValues_ne_nil (c : Coordinate) : c.groupValues ≠ [] := by
  unfold groupValues
  repeat' split
  all_goals simp

end Coordinate

end HandPath
