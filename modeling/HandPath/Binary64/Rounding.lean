import HandPath.Binary64.Basic

/-!
# HandPath.Binary64.Rounding — the binary64 number nearest to a quotient

`ofQuotient` rounds a quotient of natural numbers once: to the nearest number of the format, a tie
to the even significand, and to an infinity past the greatest number. All steps are exact.
-/

namespace HandPath.Binary64

/-- `n / d` rounded to the nearest natural number, a half to the even one. -/
def divNearest (n d : Nat) : Nat :=
  let q := n / d
  let r := n % d
  if 2 * r < d ∨ 2 * r = d ∧ q % 2 = 0 then q else q + 1

/-- The quotient `n / d` in units of `2^e`, again as a quotient. -/
def inUnits (n d : Nat) (e : Int) : Nat × Nat := (n * twoPow (-e).toNat, d * twoPow e.toNat)

/-- The exponent of the unit in which `n / d` is counted: `n / d` holds at least `2^52` and fewer
than `2^53` of them, unless the least unit is already too large for that. -/
def unitExponent (n d : Nat) : Int :=
  let e : Int := (n.log2 : Int) - d.log2 - 53
  let u := inUnits n d e
  max (if u.1 < twoPow 53 * u.2 then e else e + 1) (-1074)

/-- The number nearest to `±n / d`. -/
def ofQuotient (negative : Bool) (n d : Nat) : Binary64 :=
  if n = 0 then zero negative
  else
    let e := unitExponent n d
    let u := inUnits n d e
    let m := divNearest u.1 u.2
    if m = twoPow 53 then ofParts negative (twoPow 52) (e + 1) else ofParts negative m e

theorem ofQuotient_zero (negative : Bool) (d : Nat) : ofQuotient negative 0 d = zero negative := rfl

end HandPath.Binary64
