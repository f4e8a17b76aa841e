/-!
# HandPath.Binary64.Basic — the numbers of a coordinate

A binary64 number is finite with the value ±m · 2^e, an infinity, or no number at all. Significand
and exponent are kept in their one normal form (`Canonical`), so the nonzero values are in bijection
with the triples. `==` compares values: the zeros of both signs are equal, and `nan` differs from
itself.
-/

namespace HandPath

namespace Binary64

/-- The `k`-th power of two. -/
def twoPow (k : Nat) : Nat := Nat.pow 2 k

/-- The significand has 53 bits, or fewer at the least exponent. -/
def Canonical (m : Nat) (e : Int) : Prop :=
  m < twoPow 53 ∧ -1074 ≤ e ∧ e ≤ 971 ∧ (twoPow 52 ≤ m ∨ e = -1074)

instance (m : Nat) (e : Int) : Decidable (Canonical m e) :=
  inferInstanceAs (Decidable (_ ∧ _))

end Binary64

/-- A number of the format binary64. -/
inductive Binary64 where
  | nan
  | infinity (negative : Bool)
  | finite (negative : Bool) (m : Nat) (e : Int) (canonical : Binary64.Canonical m e)

namespace Binary64

/-- The zero of a sign. -/
def zero (negative : Bool) : Binary64 := .finite negative 0 (-1074) (by decide)

/-- The number ±m · 2^e if it is in normal form; past the greatest exponent, an infinity. -/
def ofParts (negative : Bool) (m : Nat) (e : Int) : Binary64 :=
  if h : Canonical m e then .finite negative m e h else .infinity negative

/-- One of the numbers that lie on a grid. -/
def isFinite : Binary64 → Bool
  | .finite .. => true
  | _ => false

/-- Either zero. -/
def isZero : Binary64 → Bool
  | .finite _ m _ _ => m == 0
  | _ => false

/-- Equality of values. -/
def eqv : Binary64 → Binary64 → Bool
  | .nan, _ => false
  | _, .nan => false
  | .infinity s, .infinity t => s == t
  | .finite s m e _, .finite t n f _ => m == n && (m == 0 || (s == t && e == f))
  | _, _ => false

instance : BEq Binary64 := ⟨eqv⟩

instance : Inhabited Binary64 := ⟨zero false⟩

/-- The integer that the number is, if it is one. -/
def toInt? : Binary64 → Option Int
  | .finite negative m e _ =>
    let sign : Int := if negative then -1 else 1
    if 0 ≤ e then some (sign * (m * twoPow e.toNat : Nat))
    else if m % twoPow (-e).toNat = 0 then some (sign * (m / twoPow (-e).toNat : Nat))
    else none
  | _ => none

theorem isFinite_ofParts {negative : Bool} {m : Nat} {e : Int} :
    (ofParts negative m e).isFinite = true ↔ Canonical m e := by
  unfold ofParts
  split <;> simp_all [isFinite]

end Binary64

end HandPath
