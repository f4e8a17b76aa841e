import HandPath.Decimal.Basic

/-!
# HandPath.Decimal.Shortest — the fewest digits that read back

Among the decimals that are nearest to a given binary64 number, `shortest` takes one of fewest
digits, of these the one nearest to the number, and of two equally near the one with the even last
digit. On the grid of all decimals of a given number of digits only the two neighbours of the number
have to be tried: if any point of the grid reads back, so does one of them.
-/

namespace HandPath.Decimal

/-- The exponent `p` with `10^p ≤ n / d < 10^(p+1)`, for positive `n` and `d`. -/
def magnitude (n d : Nat) : Int :=
  if d ≤ n then ((Nat.toDigits 10 (n / d)).length : Int) - 1
  else -((Nat.toDigits 10 ((d - 1) / n)).length : Int)

/-- `n / d` counted in units of `10^k`, as a quotient. -/
def inTens (n d : Nat) (k : Int) : Nat × Nat := (n * tenPow (-k).toNat, d * tenPow k.toNat)

/-- Of the two neighbours of `n / d` on the grid of multiples of `10^k`, the one that satisfies
`hit`; the nearer one if both do, the even one at a tie. -/
def neighbour? (hit : Nat → Bool) (n d : Nat) (k : Int) : Option Nat :=
  let u := inTens n d k
  let low := u.1 / u.2
  let near := Binary64.divNearest u.1 u.2
  let far := if near = low then low + 1 else low
  if hit near then some near else if hit far then some far else none

/-- The first grid from `digits` digits on, of at most `fuel` grids, that has a hit. -/
def firstGrid? (hit : Nat → Int → Bool) (n d : Nat) : Nat → Nat → Option (Nat × Int)
  | 0, _ => none
  | fuel + 1, digits =>
    let k := magnitude n d - digits + 1
    match neighbour? (hit · k) n d k with
    | some c => some (c, k)
    | none => firstGrid? hit n d fuel (digits + 1)

/-- The exact value m · 2^e, as a quotient. -/
def exactQuotient (m : Nat) (e : Int) : Nat × Nat :=
  (m * Binary64.twoPow e.toNat, Binary64.twoPow (-e).toNat)

/-- The shortest decimal that reads back as ±m · 2^e. Seventeen digits suffice for every number of
the format; should they not, all digits of the exact value are written. -/
def shortest (negative : Bool) (m : Nat) (e : Int) : Decimal :=
  if m = 0 then ⟨negative, 0, 0⟩
  else
    let v := exactQuotient m e
    let hit (c : Nat) (k : Int) : Bool :=
      (Decimal.mk false c k).toBinary64 == Binary64.ofParts false m e
    match firstGrid? hit v.1 v.2 17 1 with
    | some (c, k) => ⟨negative, c, k⟩
    | none => ⟨negative, m * Binary64.twoPow e.toNat * Nat.pow 5 (-e).toNat, min e 0⟩

end HandPath.Decimal
