import HandPath.Decimal.Basic
import Mathlib

/-!
# HandPath.Proofs.Rounding — rounding depends on the value alone

`nearest negative q` is the binary64 number nearest to the rational `±q`, by its binade: `q` is
counted in the unit of its binade, or in the least unit, and the count is rounded to the nearest
natural number.  Quotients and decimals are rounded in this way (`ofQuotient_eq`, `toBinary64_eq`),
whatever numbers present the value and however large they are, so two decimals of one value are read
as one number (`toBinary64_congr`).  A number of the format is its own nearest number
(`nearest_exact`).
-/

namespace HandPath.Binary64

variable {q : ℚ}

/-! ### Rounding a rational -/

/-- The natural number nearest to `q`, a half going to the even one. -/
def nearestNat (q : ℚ) : ℕ :=
  if q - ⌊q⌋₊ < 1 / 2 ∨ q - ⌊q⌋₊ = 1 / 2 ∧ ⌊q⌋₊ % 2 = 0 then ⌊q⌋₊ else ⌊q⌋₊ + 1

/-- The exponent of the unit in which `q` is counted. -/
def unitOf (q : ℚ) : ℤ := max (Int.log 2 q - 52) (-1074)

/-- The number nearest to `±q`. -/
def nearest (negative : Bool) (q : ℚ) : Binary64 :=
  if q = 0 then zero negative
  else
    let m := nearestNat (q / 2 ^ unitOf q)
    if m = twoPow 53 then ofParts negative (twoPow 52) (unitOf q + 1)
    else ofParts negative m (unitOf q)

theorem nearestNat_natCast (n : ℕ) : nearestNat n = n := by
  unfold nearestNat
  rw [Nat.floor_natCast, sub_self, if_pos (.inl (by norm_num))]

theorem nearestNat_of_lt_half (h : q < 1 / 2) : nearestNat q = 0 := by
  have hfloor : ⌊q⌋₊ = 0 := Nat.floor_eq_zero.2 (by linarith)
  unfold nearestNat
  rw [hfloor, Nat.cast_zero, sub_zero, if_pos (.inl h)]

/-! ### Rounding a quotient -/

theorem twoPow_eq (k : ℕ) : twoPow k = 2 ^ k := rfl

theorem twoPow_pos (k : ℕ) : 0 < twoPow k := Nat.pow_pos (by decide)

theorem two_zpow_pos (e : ℤ) : (0 : ℚ) < 2 ^ e := zpow_pos (by norm_num) e

/-- A power with any exponent, as the quotient of two powers of which one is `1`. -/
theorem two_zpow_eq_div (e : ℤ) :
    (2 : ℚ) ^ e = (twoPow e.toNat : ℚ) / (twoPow (-e).toNat : ℚ) := by
  rw [twoPow_eq, twoPow_eq, Nat.cast_pow, Nat.cast_pow, Nat.cast_ofNat]
  rcases le_total 0 e with h | h
  · rw [show (-e).toNat = 0 by omega, pow_zero, div_one, ← zpow_natCast, Int.toNat_of_nonneg h]
  · rw [show e.toNat = 0 by omega, pow_zero, one_div, ← zpow_natCast, ← zpow_neg,
      Int.toNat_of_nonneg (by omega), neg_neg]

theorem inUnits_snd_pos {d : ℕ} (hd : 0 < d) (n : ℕ) (e : ℤ) : 0 < (inUnits n d e).2 :=
  Nat.mul_pos hd (twoPow_pos _)

theorem inUnits_div (n d : ℕ) (e : ℤ) :
    ((inUnits n d e).1 : ℚ) / (inUnits n d e).2 = n / d / 2 ^ e := by
  rw [two_zpow_eq_div, inUnits, Nat.cast_mul, Nat.cast_mul, mul_div_mul_comm, div_div_eq_mul_div,
    mul_div_assoc]

theorem divNearest_eq (n : ℕ) {d : ℕ} (hd : 0 < d) : divNearest n d = nearestNat (n / d) := by
  have hdq : (0 : ℚ) < d := Nat.cast_pos.2 hd
  -- What the floor leaves over is the remainder, which is compared with a half in integers.
  have hrest : (n : ℚ) / d - ((n / d : ℕ) : ℚ) = ((n % d : ℕ) : ℚ) / d := by
    have hsplit : (n : ℚ) = d * ((n / d : ℕ) : ℚ) + ((n % d : ℕ) : ℚ) := by
      exact_mod_cast (Nat.div_add_mod n d).symm
    rw [eq_div_iff hdq.ne', sub_mul, div_mul_cancel₀ _ hdq.ne']
    linarith
  have hlt : ((n % d : ℕ) : ℚ) / d < 1 / 2 ↔ 2 * (n % d) < d := by
    rw [div_lt_div_iff₀ hdq two_pos, one_mul, mul_comm]
    exact_mod_cast Iff.rfl
  have heq : ((n % d : ℕ) : ℚ) / d = 1 / 2 ↔ 2 * (n % d) = d := by
    rw [div_eq_div_iff hdq.ne' two_ne_zero, one_mul, mul_comm]
    exact_mod_cast Iff.rfl
  unfold divNearest nearestNat
  simp only [Nat.floor_div_eq_div, hrest, hlt, heq]

theorem log_lt_iff {e : ℤ} (hq : 0 < q) : Int.log 2 q < e ↔ q < 2 ^ e := by
  rw [← Int.lt_zpow_iff_log_lt (by norm_num) hq, Nat.cast_ofNat]

theorem le_log_iff {e : ℤ} (hq : 0 < q) : e ≤ Int.log 2 q ↔ 2 ^ e ≤ q := by
  rw [← Int.zpow_le_iff_le_log (by norm_num) hq, Nat.cast_ofNat]

theorem zpow_log2_le {n : ℕ} (hn : 0 < n) : (2 : ℚ) ^ (n.log2 : ℤ) ≤ n := by
  rw [zpow_natCast]
  exact_mod_cast Nat.log2_self_le hn.ne'

theorem lt_zpow_log2 (n : ℕ) : (n : ℚ) < 2 ^ ((n.log2 : ℤ) + 1) := by
  rw [← Nat.cast_succ, zpow_natCast]
  exact_mod_cast Nat.lt_log2_self

/-- The binade of a quotient is the difference of the lengths, or one below it. -/
theorem log_div_bounds {n d : ℕ} (hn : 0 < n) (hd : 0 < d) :
    (n.log2 : ℤ) - d.log2 - 1 ≤ Int.log 2 ((n : ℚ) / d) ∧
      Int.log 2 ((n : ℚ) / d) < (n.log2 : ℤ) - d.log2 + 1 := by
  have hdq : (0 : ℚ) < d := Nat.cast_pos.2 hd
  have hq : (0 : ℚ) < n / d := div_pos (Nat.cast_pos.2 hn) hdq
  -- A length bounds a number by powers of two on both sides.
  refine ⟨?_, ?_⟩
  · rw [le_log_iff hq, le_div_iff₀ hdq]
    have hd' := (lt_zpow_log2 d).le
    calc (2 : ℚ) ^ ((n.log2 : ℤ) - d.log2 - 1) * d
        ≤ 2 ^ ((n.log2 : ℤ) - d.log2 - 1) * 2 ^ ((d.log2 : ℤ) + 1) := by gcongr
      _ = 2 ^ (n.log2 : ℤ) := by
        rw [← zpow_add₀ two_ne_zero]
        congr 1
        omega
      _ ≤ n := zpow_log2_le hn
  · rw [log_lt_iff hq, div_lt_iff₀ hdq]
    have hd' := zpow_log2_le hd
    calc (n : ℚ) < 2 ^ ((n.log2 : ℤ) + 1) := lt_zpow_log2 n
      _ = 2 ^ ((n.log2 : ℤ) - d.log2 + 1) * 2 ^ (d.log2 : ℤ) := by
        rw [← zpow_add₀ two_ne_zero]
        congr 1
        omega
      _ ≤ 2 ^ ((n.log2 : ℤ) - d.log2 + 1) * d := by gcongr

theorem inUnits_lt_iff {n d : ℕ} (hn : 0 < n) (hd : 0 < d) (k : ℕ) (e : ℤ) :
    (inUnits n d e).1 < twoPow k * (inUnits n d e).2 ↔ Int.log 2 ((n : ℚ) / d) < k + e := by
  have hq : (0 : ℚ) < n / d := div_pos (Nat.cast_pos.2 hn) (Nat.cast_pos.2 hd)
  have hpos : (0 : ℚ) < (inUnits n d e).2 := Nat.cast_pos.2 (inUnits_snd_pos hd n e)
  rw [log_lt_iff hq, ← Nat.cast_lt (α := ℚ), Nat.cast_mul, ← div_lt_iff₀ hpos, inUnits_div,
    div_lt_iff₀ (two_zpow_pos e), twoPow_eq, Nat.cast_pow, Nat.cast_ofNat, ← zpow_natCast,
    ← zpow_add₀ two_ne_zero]

/-- The lengths of numerator and denominator, with one correction, give the unit. -/
theorem unitExponent_eq {n d : ℕ} (hn : 0 < n) (hd : 0 < d) :
    unitExponent n d = unitOf (n / d) := by
  obtain ⟨hlow, hhigh⟩ := log_div_bounds hn hd
  unfold unitExponent unitOf
  simp only [inUnits_lt_iff hn hd]
  split_ifs with h
  · congr 1
    omega
  · congr 1
    omega

/-- A quotient is rounded by its value. -/
theorem ofQuotient_eq (negative : Bool) (n : ℕ) {d : ℕ} (hd : 0 < d) :
    ofQuotient negative n d = nearest negative (n / d) := by
  have hdq : (d : ℚ) ≠ 0 := Nat.cast_ne_zero.2 hd.ne'
  by_cases hn : n = 0
  · subst hn
    rw [ofQuotient_zero, nearest, Nat.cast_zero, zero_div, if_pos rfl]
  · have hq : (n : ℚ) / d ≠ 0 := div_ne_zero (Nat.cast_ne_zero.2 hn) hdq
    unfold ofQuotient nearest
    rw [if_neg hn, if_neg hq]
    simp only [unitExponent_eq (Nat.pos_of_ne_zero hn) hd, divNearest_eq _ (inUnits_snd_pos hd n _),
      inUnits_div]

/-- The number with the given sign in place of its own. -/
def withSign (negative : Bool) : Binary64 → Binary64
  | .nan => .nan
  | .infinity _ => .infinity negative
  | .finite _ m e h => .finite negative m e h

theorem withSign_ofParts (s t : Bool) (m : ℕ) (e : ℤ) :
    withSign s (ofParts t m e) = ofParts s m e := by
  unfold ofParts
  split_ifs
  · rfl
  · rfl

/-- The sign has no part in rounding. -/
theorem withSign_nearest (s t : Bool) (q : ℚ) : withSign s (nearest t q) = nearest s q := by
  unfold nearest
  split_ifs
  · rfl
  · dsimp only
    split_ifs
    · exact withSign_ofParts s t _ _
    · exact withSign_ofParts s t _ _

/-! ### Numbers of the format, and numbers far outside it -/

theorem unitOf_of_canonical {m : ℕ} {e : ℤ} (h : Canonical m e) (hm : m ≠ 0) :
    unitOf (m * 2 ^ e) = e := by
  obtain ⟨hlt, he, -, hleast⟩ := h
  have hq : (0 : ℚ) < m * 2 ^ e :=
    mul_pos (Nat.cast_pos.2 (Nat.pos_of_ne_zero hm)) (two_zpow_pos e)
  have hhigh : Int.log 2 ((m : ℚ) * 2 ^ e) < 53 + e := by
    rw [log_lt_iff hq, zpow_add₀ two_ne_zero]
    refine mul_lt_mul_of_pos_right ?_ (two_zpow_pos e)
    exact_mod_cast hlt
  unfold unitOf
  rcases hleast with hleast | rfl
  · have hlow : 52 + e ≤ Int.log 2 ((m : ℚ) * 2 ^ e) := by
      rw [le_log_iff hq, zpow_add₀ two_ne_zero]
      refine mul_le_mul_of_nonneg_right ?_ (two_zpow_pos e).le
      exact_mod_cast hleast
    omega
  · omega

/-- A number of the format is nearest to its own value. -/
theorem nearest_exact (negative : Bool) {m : ℕ} {e : ℤ} (h : Canonical m e) (hm : m ≠ 0) :
    nearest negative (m * 2 ^ e) = .finite negative m e h := by
  have hq : (m : ℚ) * 2 ^ e ≠ 0 := mul_ne_zero (Nat.cast_ne_zero.2 hm) (two_zpow_pos e).ne'
  have hm53 : m ≠ twoPow 53 := h.1.ne
  unfold nearest
  rw [if_neg hq]
  simp only [unitOf_of_canonical h hm, mul_div_cancel_right₀ _ (two_zpow_pos e).ne',
    nearestNat_natCast, if_neg hm53]
  exact dif_pos h

theorem ofParts_of_lt (negative : Bool) (m : ℕ) {e : ℤ} (h : 971 < e) :
    ofParts negative m e = .infinity negative :=
  dif_neg fun hc => absurd hc.2.2.1 (by omega)

theorem nearest_of_le (negative : Bool) (h : (2 : ℚ) ^ (1024 : ℤ) ≤ q) :
    nearest negative q = .infinity negative := by
  have hq : 0 < q := (two_zpow_pos _).trans_le h
  have hlog : 1024 ≤ Int.log 2 q := (le_log_iff hq).2 h
  have hunit : 971 < unitOf q := by
    unfold unitOf
    omega
  unfold nearest
  rw [if_neg hq.ne']
  dsimp only
  split_ifs
  · exact ofParts_of_lt _ _ (by omega)
  · exact ofParts_of_lt _ _ hunit

theorem nearest_of_lt (negative : Bool) (hq : 0 < q) (h : q < 2 ^ (-1075 : ℤ)) :
    nearest negative q = .zero negative := by
  have hlog : Int.log 2 q < -1075 := (log_lt_iff hq).2 h
  have hunit : unitOf q = -1074 := by
    unfold unitOf
    omega
  have hhalf : q / 2 ^ (-1074 : ℤ) < 1 / 2 := by
    rw [div_lt_iff₀ (two_zpow_pos _)]
    refine h.trans_eq ?_
    rw [show (-1075 : ℤ) = -1 + -1074 by norm_num, zpow_add₀ two_ne_zero]
    norm_num
  unfold nearest
  rw [if_neg hq.ne', hunit]
  simp only [nearestNat_of_lt_half hhalf, if_neg (show 0 ≠ twoPow 53 by decide)]
  rfl

end HandPath.Binary64

namespace HandPath.Decimal

open Binary64

/-! ### Decimals -/

/-- The value of a decimal without its sign. -/
def magnitudeOf (d : Decimal) : ℚ := d.coefficient * 10 ^ d.exponent

theorem tenPow_eq (k : ℕ) : tenPow k = 10 ^ k := rfl

theorem tenPow_pos (k : ℕ) : 0 < tenPow k := Nat.pow_pos (by decide)

theorem two_pow_le_ten_pow (k : ℕ) : (2 : ℚ) ^ (3 * (k : ℤ)) ≤ 10 ^ k := by
  rw [zpow_mul, zpow_natCast]
  exact pow_le_pow_left₀ (by norm_num) (by norm_num) k

theorem magnitudeOf_of_nonneg {d : Decimal} (h : 0 ≤ d.exponent) :
    d.magnitudeOf = d.coefficient * 10 ^ d.exponent.natAbs := by
  rw [magnitudeOf, ← zpow_natCast, Int.natAbs_of_nonneg h]

theorem magnitudeOf_of_neg {d : Decimal} (h : d.exponent < 0) :
    d.magnitudeOf = d.coefficient / 10 ^ d.exponent.natAbs := by
  rw [magnitudeOf, ← zpow_natCast, div_eq_mul_inv, ← zpow_neg]
  congr 2
  omega

/-- A decimal that is told to be too large by lengths is too large. -/
theorem le_magnitudeOf {d : Decimal} (hc : 0 < d.coefficient) (h0 : 0 ≤ d.exponent)
    (h : 1100 < d.coefficient.log2 + 3 * d.exponent.natAbs) :
    2 ^ (1024 : ℤ) ≤ d.magnitudeOf := by
  have hlow := zpow_log2_le hc
  have hten := two_pow_le_ten_pow d.exponent.natAbs
  rw [magnitudeOf_of_nonneg h0]
  calc (2 : ℚ) ^ (1024 : ℤ) ≤ 2 ^ ((d.coefficient.log2 : ℤ) + 3 * (d.exponent.natAbs : ℤ)) :=
        zpow_le_zpow_right₀ (by norm_num) (by omega)
    _ = 2 ^ (d.coefficient.log2 : ℤ) * 2 ^ (3 * (d.exponent.natAbs : ℤ)) :=
        zpow_add₀ two_ne_zero _ _
    _ ≤ d.coefficient * 10 ^ d.exponent.natAbs := by gcongr

/-- A decimal that is told to be too small by lengths is too small. -/
theorem magnitudeOf_lt {d : Decimal} (h0 : d.exponent < 0)
    (h : d.coefficient.log2 + 1100 < 3 * d.exponent.natAbs) :
    d.magnitudeOf < 2 ^ (-1075 : ℤ) := by
  have hten := two_pow_le_ten_pow d.exponent.natAbs
  rw [magnitudeOf_of_neg h0, div_lt_iff₀ (by positivity)]
  calc (d.coefficient : ℚ) < 2 ^ ((d.coefficient.log2 : ℤ) + 1) := lt_zpow_log2 _
    _ ≤ 2 ^ ((-1075 : ℤ) + 3 * (d.exponent.natAbs : ℤ)) :=
        zpow_le_zpow_right₀ (by norm_num) (by omega)
    _ = 2 ^ (-1075 : ℤ) * 2 ^ (3 * (d.exponent.natAbs : ℤ)) := zpow_add₀ two_ne_zero _ _
    _ ≤ 2 ^ (-1075 : ℤ) * 10 ^ d.exponent.natAbs := by gcongr

/-- A decimal is rounded by its value. -/
theorem toBinary64_eq (d : Decimal) : d.toBinary64 = nearest d.negative d.magnitudeOf := by
  unfold toBinary64
  dsimp only
  by_cases hc : d.coefficient = 0
  · rw [if_pos hc, magnitudeOf, hc, Nat.cast_zero, zero_mul, nearest, if_pos rfl]
  have hpos : 0 < d.coefficient := Nat.pos_of_ne_zero hc
  rw [if_neg hc]
  -- The guards decide by lengths what the value would decide.
  rcases le_or_gt 0 d.exponent with h0 | h0
  · rw [if_pos h0]
    split_ifs with hguard
    · exact (nearest_of_le d.negative (le_magnitudeOf hpos h0 hguard)).symm
    · rw [magnitudeOf_of_nonneg h0, ofQuotient_eq _ _ Nat.one_pos, tenPow_eq, Nat.cast_mul,
        Nat.cast_pow, Nat.cast_one, div_one, Nat.cast_ofNat]
  · rw [if_neg (by omega)]
    split_ifs with hguard
    · have hmagnitude : 0 < d.magnitudeOf := by
        unfold magnitudeOf
        positivity
      exact (nearest_of_lt d.negative hmagnitude (magnitudeOf_lt h0 hguard)).symm
    · rw [magnitudeOf_of_neg h0, ofQuotient_eq _ _ (tenPow_pos _), tenPow_eq, Nat.cast_pow,
        Nat.cast_ofNat]

/-- Decimals of one sign and one value are read as one number. -/
theorem toBinary64_congr {d d' : Decimal} (hsign : d.negative = d'.negative)
    (hvalue : d.magnitudeOf = d'.magnitudeOf) : d.toBinary64 = d'.toBinary64 := by
  rw [toBinary64_eq, toBinary64_eq, hsign, hvalue]

end HandPath.Decimal
