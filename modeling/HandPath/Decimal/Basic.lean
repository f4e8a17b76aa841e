import HandPath.Binary64.Rounding

/-!
# HandPath.Decimal.Basic — decimal numbers and the binary64 numbers nearest to them

A decimal has the value ±c · 10^k. `toBinary64` rounds that exact value; exponents of any size are
allowed, since a value far outside the range of the format is recognised by the bit length of `c`
and the size of `k` before a power of ten is formed: `10^k` is at least `8^k`.
-/

namespace HandPath

/-- A number ±coefficient · 10^exponent. -/
structure Decimal where
  negative : Bool
  coefficient : Nat
  exponent : Int
deriving DecidableEq, Repr

namespace Decimal

/-- The `k`-th power of ten. -/
def tenPow (k : Nat) : Nat := Nat.pow 10 k

/-- The binary64 number nearest to the decimal, a tie going to the even significand. -/
def toBinary64 (d : Decimal) : Binary64 :=
  let bits := d.coefficient.log2
  let k := d.exponent.natAbs
  if d.coefficient = 0 then .zero d.negative
  else if 0 ≤ d.exponent then
    if 1100 < bits + 3 * k then .infinity d.negative
    else .ofQuotient d.negative (d.coefficient * tenPow k) 1
  else if bits + 1100 < 3 * k then .zero d.negative
  else .ofQuotient d.negative d.coefficient (tenPow k)

end Decimal

end HandPath
