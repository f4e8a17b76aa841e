import HandPath.Proofs.Rounding

/-!
# HandPath.Proofs.Nearest — rounding finds the nearest number

`IsNearest negative x v`: no finite number of the format is nearer to the rational `x` than `v`, the
significand of `v` is even if another one is as near, and `v` has the sign given, which is also that
of a zero.  The numbers of the format from the binade of `q` on are multiples of its unit, and those
below lie on the other side of a multiple that is nearer (`grid_nearest`); among the multiples,
counting in units and rounding the count finds the nearest (`nearestNat_spec`).

Main statements: a rounded number that is finite is nearest (`isNearest_nearest`), there is no other
(`IsNearest.unique`), and it is finite exactly if the number that is rounded lies below the middle
between the greatest number of the format and the next power of two (`isFinite_nearest_iff`).
-/

namespace HandPath.Binary64

variable {q : ℚ} {n : ℕ}

/-! ### The nearest natural number -/

/-- At most a half away, and even if it is a half. -/
theorem nearestNat_spec (hq : 0 ≤ q) : |q - nearestNat q| ≤ 1 / 2 ∧
    (|q - nearestNat q| = 1 / 2 → nearestNat q % 2 = 0) := by
  have hfloor : (⌊q⌋₊ : ℚ) ≤ q := Nat.floor_le hq
  have hsucc : q < ⌊q⌋₊ + 1 := Nat.lt_floor_add_one q
  unfold nearestNat
  split_ifs with h
  · rw [abs_of_nonneg (sub_nonneg.2 hfloor)]
    rcases h with hlt | ⟨heq, heven⟩
    · exact ⟨hlt.le, fun heq => absurd heq hlt.ne⟩
    · exact ⟨heq.le, fun _ => heven⟩
  · obtain ⟨hge, hodd⟩ := not_or.1 h
    rw [Nat.cast_succ, abs_of_nonpos (by linarith)]
    refine ⟨by linarith, fun heq => ?_⟩
    have hne : ⌊q⌋₊ % 2 ≠ 0 := fun heven => hodd ⟨by linarith, heven⟩
    omega

theorem one_le_abs_sub {m n : ℕ} (h : m ≠ n) : (1 : ℚ) ≤ |(m : ℚ) - n| := by
  have hint : 1 ≤ |(m : ℤ) - n| := Int.one_le_abs (by omega)
  exact_mod_cast hint

/-- No natural number is nearer, and another one is as near only if the nearest one is even. -/
theorem nearestNat_nearest (hq : 0 ≤ q) (n : ℕ) : |q - nearestNat q| ≤ |q - n| ∧
    (|q - n| = |q - nearestNat q| → n ≠ nearestNat q → nearestNat q % 2 = 0) := by
  obtain ⟨hhalf, heven⟩ := nearestNat_spec hq
  by_cases hn : n = nearestNat q
  · rw [hn]
    exact ⟨le_rfl, fun _ hne => absurd rfl hne⟩
  -- Natural numbers are one apart at least, so another one is a half away or more.
  · have hone := one_le_abs_sub hn
    have hsum : |(n : ℚ) - nearestNat q| ≤ |q - n| + |q - nearestNat q| := by
      rw [abs_sub_comm q (n : ℚ)]
      exact abs_sub_le _ _ _
    exact ⟨by linarith, fun htie _ => heven (by linarith)⟩

theorem nearestNat_le (hq : 0 ≤ q) (h : q ≤ n) : nearestNat q ≤ n := by
  by_contra hlt
  have hcast : (n : ℚ) + 1 ≤ nearestNat q := by exact_mod_cast not_le.1 hlt
  have hle := (nearestNat_nearest hq n).1
  rw [abs_of_nonpos (by linarith), abs_of_nonpos (by linarith)] at hle
  linarith

theorem le_nearestNat (h : n ≤ q) : n ≤ nearestNat q := by
  have hq : 0 ≤ q := (Nat.cast_nonneg n).trans h
  by_contra hlt
  have hcast : (nearestNat q : ℚ) + 1 ≤ n := by exact_mod_cast not_le.1 hlt
  have hle := (nearestNat_nearest hq n).1
  rw [abs_of_nonneg (by linarith), abs_of_nonneg (by linarith)] at hle
  linarith

/-- The middle above an odd number is rounded away from it. -/
theorem nearestNat_le_iff_of_odd (hq : 0 ≤ q) (hodd : n % 2 = 1) :
    nearestNat q ≤ n ↔ q < n + 1 / 2 := by
  obtain ⟨hhalf, heven⟩ := nearestNat_spec hq
  obtain ⟨hlow, hhigh⟩ := abs_le.1 hhalf
  refine ⟨fun hle => ?_, fun hlt => ?_⟩
  · have hcast : (nearestNat q : ℚ) ≤ n := Nat.cast_le.2 hle
    refine lt_of_le_of_ne (by linarith) fun heq => ?_
    have hsame : (nearestNat q : ℚ) = n := by linarith
    have htie := heven (by rw [hsame, heq, add_sub_cancel_left, abs_of_nonneg (by norm_num)])
    rw [Nat.cast_inj.1 hsame] at htie
    omega
  · by_contra hgt
    have hcast : (n : ℚ) + 1 ≤ nearestNat q := by exact_mod_cast not_le.1 hgt
    linarith

/-! ### Multiples of the unit -/

/-- A number holds fewer than `2^53` of its units, and at least `2^52` unless its unit is the
least. -/
theorem unitOf_bounds (hq : 0 < q) : q / 2 ^ unitOf q < (2 ^ 53 : ℕ) ∧
    (unitOf q ≠ -1074 → ((2 ^ 52 : ℕ) : ℚ) ≤ q / 2 ^ unitOf q) := by
  have hpos := two_zpow_pos (unitOf q)
  have hpow : ∀ k : ℕ, ((2 ^ k : ℕ) : ℚ) * 2 ^ unitOf q = 2 ^ (k + unitOf q) := by
    intro k
    rw [zpow_add₀ two_ne_zero, zpow_natCast, Nat.cast_pow, Nat.cast_ofNat]
  refine ⟨?_, fun hne => ?_⟩
  · rw [div_lt_iff₀ hpos, hpow, ← log_lt_iff hq]
    unfold unitOf
    omega
  · rw [le_div_iff₀ hpos, hpow, ← le_log_iff hq]
    unfold unitOf at hne ⊢
    omega

theorem abs_sub_units (q a : ℚ) (e : ℤ) : |q - a * 2 ^ e| = |q / 2 ^ e - a| * 2 ^ e := by
  have hpos := two_zpow_pos e
  rw [← abs_of_pos hpos, ← abs_mul, abs_of_pos hpos, sub_mul, div_mul_cancel₀ _ hpos.ne']

/-- The multiple of the unit that is nearest to `q`. -/
def onGrid (q : ℚ) : ℚ := nearestNat (q / 2 ^ unitOf q) * 2 ^ unitOf q

theorem onGrid_nearest (hq : 0 ≤ q) (n : ℕ) :
    |q - onGrid q| ≤ |q - n * 2 ^ unitOf q| ∧
      (|q - n * 2 ^ unitOf q| = |q - onGrid q| → n * 2 ^ unitOf q ≠ onGrid q →
        nearestNat (q / 2 ^ unitOf q) % 2 = 0) := by
  have hpos := two_zpow_pos (unitOf q)
  obtain ⟨hle, htie⟩ := nearestNat_nearest (div_nonneg hq hpos.le) n
  rw [onGrid, abs_sub_units, abs_sub_units]
  refine ⟨mul_le_mul_of_nonneg_right hle hpos.le, fun heq hne => ?_⟩
  refine htie (mul_right_cancel₀ hpos.ne' heq) ?_
  rintro rfl
  exact hne rfl

/-- A number of the format lies below the binades of greater units. -/
theorem lt_of_exponent_lt {e f : ℤ} (h : Canonical n f) (hlt : f < e) :
    (n : ℚ) * 2 ^ f < (2 ^ 52 : ℕ) * 2 ^ e := by
  have hn : (n : ℚ) < 2 ^ 53 := by exact_mod_cast h.1
  calc (n : ℚ) * 2 ^ f < 2 ^ 53 * 2 ^ f := mul_lt_mul_of_pos_right hn (two_zpow_pos f)
    _ = (2 ^ 52 : ℕ) * 2 ^ (f + 1) := by
      rw [zpow_add₀ two_ne_zero, zpow_one]
      push_cast
      ring
    _ ≤ (2 ^ 52 : ℕ) * 2 ^ e := by
      gcongr
      · norm_num
      · omega

/-- A number counted in a unit is a number of any smaller unit. -/
theorem mul_zpow_add (n k : ℕ) (e : ℤ) : (n : ℚ) * 2 ^ (e + k) = (n * 2 ^ k : ℕ) * 2 ^ e := by
  rw [zpow_add₀ two_ne_zero, zpow_natCast]
  push_cast
  ring

/-- No number of the format is nearer to `q` than the nearest multiple of its unit, and another one
is as near only if the count of units is even. -/
theorem grid_nearest (hq : 0 < q) {f : ℤ} (h : Canonical n f) :
    |q - onGrid q| ≤ |q - n * 2 ^ f| ∧
      (|q - n * 2 ^ f| = |q - onGrid q| → n * 2 ^ f ≠ onGrid q →
        nearestNat (q / 2 ^ unitOf q) % 2 = 0) := by
  rcases le_or_gt (unitOf q) f with hle | hlt
  · obtain ⟨k, rfl⟩ := Int.le.dest hle
    rw [mul_zpow_add]
    exact onGrid_nearest hq.le _
  · -- The number lies below the binade of `q`, which begins with a multiple of the unit.
    have hunit : unitOf q ≠ -1074 := by
      have := h.2.1
      omega
    have hstart := (le_div_iff₀ (two_zpow_pos _)).1 ((unitOf_bounds hq).2 hunit)
    have hbelow := lt_of_exponent_lt h hlt
    have hnear := (onGrid_nearest hq.le (2 ^ 52)).1
    rw [abs_of_nonneg (sub_nonneg.2 hstart)] at hnear
    have hfar : |q - onGrid q| < |q - n * 2 ^ f| := by
      rw [abs_of_nonneg (by linarith : 0 ≤ q - n * 2 ^ f)]
      linarith
    exact ⟨hfar.le, fun heq _ => absurd heq hfar.ne'⟩

/-! ### The nearest number of the format -/

/-- The factor that a sign stands for. -/
def unitSign (negative : Bool) : ℚ := if negative then -1 else 1

/-- The value of a finite number. -/
def toRat : Binary64 → ℚ
  | .finite negative m e _ => unitSign negative * (m * 2 ^ e)
  | _ => 0

/-- The sign, also of a zero. -/
def isNegative : Binary64 → Bool
  | .nan => false
  | .infinity negative => negative
  | .finite negative _ _ _ => negative

/-- The significand, whose parity settles a tie. -/
def significand : Binary64 → ℕ
  | .finite _ m _ _ => m
  | _ => 0

/-- The finite number `v` is nearest to `x`, or as near as another but even, and has the sign
given. -/
structure IsNearest (negative : Bool) (x : ℚ) (v : Binary64) : Prop where
  isFinite : v.isFinite = true
  isNegative : v.isNegative = negative
  nearest : ∀ w : Binary64, w.isFinite = true → |x - v.toRat| ≤ |x - w.toRat|
  even : ∀ w : Binary64, w.isFinite = true → w.toRat ≠ v.toRat →
    |x - w.toRat| = |x - v.toRat| → v.significand % 2 = 0

theorem abs_unitSign_sub (s : Bool) (a b : ℚ) :
    |unitSign s * a - unitSign s * b| = |a - b| := by
  rw [← mul_sub, abs_mul]
  cases s <;> simp [unitSign]

/-- Numbers of different signs are as far apart as both are from zero. -/
theorem abs_unitSign_sub_of_ne {s t : Bool} (h : s ≠ t) {a b : ℚ} (ha : 0 ≤ a) (hb : 0 ≤ b) :
    |unitSign s * a - unitSign t * b| = a + b := by
  cases s <;> cases t
  · exact absurd rfl h
  · simp [unitSign, abs_of_nonneg (add_nonneg ha hb)]
  · rw [unitSign, unitSign, if_pos rfl, if_neg Bool.false_ne_true, abs_of_nonpos (by linarith)]
    ring
  · exact absurd rfl h

/-- A rounded number that is finite is the nearest multiple of the unit. -/
theorem exists_parts_of_isFinite {negative : Bool} (hq : 0 < q)
    (h : (nearest negative q).isFinite = true) : ∃ m e hc,
      nearest negative q = .finite negative m e hc ∧ (m : ℚ) * 2 ^ e = onGrid q ∧
        (nearestNat (q / 2 ^ unitOf q) % 2 = 0 → m % 2 = 0) := by
  unfold nearest at h ⊢
  rw [if_neg hq.ne'] at h ⊢
  dsimp only at h ⊢
  -- A count that is rounded up to `2 ^ 53` is the first number of the next binade.
  split_ifs at h ⊢ with htop
  · have hc := isFinite_ofParts.1 h
    refine ⟨_, _, hc, dif_pos hc, ?_, fun _ => rfl⟩
    rw [onGrid, htop, zpow_add₀ two_ne_zero, zpow_one, twoPow_eq, twoPow_eq]
    push_cast
    ring
  · have hc := isFinite_ofParts.1 h
    exact ⟨_, _, hc, dif_pos hc, rfl, id⟩

theorem isNearest_zero (negative : Bool) : IsNearest negative 0 (zero negative) := by
  have hzero : (zero negative).toRat = 0 := by simp [toRat, zero]
  refine ⟨rfl, rfl, fun w _ => ?_, fun _ _ _ _ => rfl⟩
  rw [hzero, sub_zero, abs_zero]
  exact abs_nonneg _

/-- **Rounding finds the nearest number**, unless it overflows. -/
theorem isNearest_nearest {negative : Bool} (hq : 0 ≤ q)
    (h : (nearest negative q).isFinite = true) :
    IsNearest negative (unitSign negative * q) (nearest negative q) := by
  rcases hq.eq_or_lt with rfl | hpos
  · rw [nearest, if_pos rfl, mul_zero]
    exact isNearest_zero negative
  obtain ⟨m, e, hc, heq, hvalue, heven⟩ := exists_parts_of_isFinite hpos h
  rw [heq]
  have hzero : Canonical 0 (-1074) := by decide
  have hnear : ∀ w : Binary64, w.isFinite = true →
      |unitSign negative * q - unitSign negative * onGrid q| ≤ |unitSign negative * q - w.toRat| ∧
      (|unitSign negative * q - w.toRat| = |unitSign negative * q - unitSign negative * onGrid q| →
        w.toRat ≠ unitSign negative * onGrid q → nearestNat (q / 2 ^ unitOf q) % 2 = 0) := by
    intro w hw
    cases w with
    | nan => exact absurd hw Bool.false_ne_true
    | infinity s => exact absurd hw Bool.false_ne_true
    | finite s n f hn =>
      rw [abs_unitSign_sub, toRat]
      by_cases hs : negative = s
      · subst hs
        rw [abs_unitSign_sub]
        obtain ⟨hle, htie⟩ := grid_nearest hpos hn
        exact ⟨hle, fun heq hne => htie heq fun h => hne (by rw [h])⟩
      · -- On the other side of zero nothing is nearer than zero.
        have hnonneg : (0 : ℚ) ≤ n * 2 ^ f := mul_nonneg (Nat.cast_nonneg n) (two_zpow_pos f).le
        rw [abs_unitSign_sub_of_ne hs hq hnonneg]
        obtain ⟨hle, htie⟩ := grid_nearest hpos hzero
        rw [Nat.cast_zero, zero_mul, sub_zero, abs_of_pos hpos] at hle htie
        refine ⟨by linarith, fun heq hne => htie (by linarith) fun h => hne ?_⟩
        have hn0 : (n : ℚ) * 2 ^ f = 0 := by linarith
        rw [hn0, ← h, mul_zero, mul_zero]
  have hsame : (finite negative m e hc).toRat = unitSign negative * onGrid q := by
    rw [toRat, hvalue]
  refine ⟨rfl, rfl, fun w hw => ?_, fun w hw hne htie => ?_⟩
  · rw [hsame]
    exact (hnear w hw).1
  · rw [hsame] at hne htie
    exact heven ((hnear w hw).2 htie hne)

/-! ### There is one nearest number -/

/-- Numbers of one value and one sign are the same. -/
theorem finite_eq_of_value_eq (s : Bool) {m n : ℕ} {e f : ℤ} (hm : Canonical m e)
    (hn : Canonical n f) (h : (m : ℚ) * 2 ^ e = n * 2 ^ f) :
    Binary64.finite s m e hm = .finite s n f hn := by
  by_cases hm0 : m = 0
  · subst hm0
    rw [Nat.cast_zero, zero_mul, eq_comm, mul_eq_zero, Nat.cast_eq_zero] at h
    obtain rfl := h.resolve_right (two_zpow_pos f).ne'
    obtain rfl := hm.2.2.2.resolve_left (by decide)
    obtain rfl := hn.2.2.2.resolve_left (by decide)
    rfl
  · have hn0 : n ≠ 0 := by
      rintro rfl
      rw [Nat.cast_zero, zero_mul, mul_eq_zero, Nat.cast_eq_zero] at h
      exact hm0 (h.resolve_right (two_zpow_pos e).ne')
    rw [← nearest_exact s hm hm0, ← nearest_exact s hn hn0, h]

/-- Between two even numbers there is an odd one. -/
theorem exists_between_of_even {m n : ℕ} {e f : ℤ} (hm : Canonical m e) (hn : Canonical n f)
    (heven : m % 2 = 0) (heven' : n % 2 = 0) (hlt : (m : ℚ) * 2 ^ e < n * 2 ^ f) :
    Canonical (m + 1) e ∧ ((m + 1 : ℕ) : ℚ) * 2 ^ e < n * 2 ^ f := by
  have hpos := two_zpow_pos e
  obtain ⟨hbits, hlow, hhigh, hleast⟩ := hm
  have hodd : m + 1 < twoPow 53 := by
    rw [twoPow_eq] at hbits ⊢
    omega
  refine ⟨⟨hodd, hlow, hhigh, hleast.imp_left fun h => by omega⟩, ?_⟩
  rcases le_or_gt e f with hle | hgt
  · obtain ⟨k, rfl⟩ := Int.le.dest hle
    rw [mul_zpow_add] at hlt ⊢
    have hcount := Nat.cast_lt.1 (lt_of_mul_lt_mul_right hlt hpos.le)
    have hcount' : n * 2 ^ k % 2 = 0 := by rw [Nat.mul_mod, heven', Nat.zero_mul, Nat.zero_mod]
    exact mul_lt_mul_of_pos_right (Nat.cast_lt.2 (by omega)) hpos
  · have hbelow := lt_of_exponent_lt hn hgt
    have hm52 : 2 ^ 52 ≤ m := hleast.resolve_right (by have := hn.2.1; omega)
    have hm : ((2 ^ 52 : ℕ) : ℚ) * 2 ^ e ≤ m * 2 ^ e :=
      mul_le_mul_of_nonneg_right (Nat.cast_le.2 hm52) hpos.le
    exact absurd hlt (not_lt.2 (hbelow.le.trans hm))

theorem IsNearest.not_value_lt {s : Bool} {x : ℚ} {m n : ℕ} {e f : ℤ} {hm : Canonical m e}
    {hn : Canonical n f} (h : IsNearest s x (.finite s m e hm))
    (h' : IsNearest s x (.finite s n f hn)) : ¬ (m : ℚ) * 2 ^ e < n * 2 ^ f := by
  intro hlt
  have hx : x = unitSign s * (unitSign s * x) := by
    rw [← mul_assoc]
    cases s <;> simp [unitSign]
  have hvalue : ∀ {a b : ℚ}, a ≠ b → unitSign s * a ≠ unitSign s * b := by
    intro a b hab
    cases s <;> simpa [unitSign] using hab
  have htie := le_antisymm (h.nearest _ h'.isFinite) (h'.nearest _ h.isFinite)
  have heven := h.even _ h'.isFinite (hvalue hlt.ne') htie.symm
  have heven' := h'.even _ h.isFinite (hvalue hlt.ne) htie
  -- The tie makes both of them even, but then an odd number between them is nearer.
  obtain ⟨hc, hbetween⟩ := exists_between_of_even hm hn heven heven' hlt
  have hnear := h.nearest (.finite s (m + 1) e hc) rfl
  simp only [toRat] at htie hnear
  rw [hx, abs_unitSign_sub, abs_unitSign_sub] at htie hnear
  have hstep : (m : ℚ) * 2 ^ e < (m + 1 : ℕ) * 2 ^ e :=
    mul_lt_mul_of_pos_right (Nat.cast_lt.2 (Nat.lt_succ_self m)) (two_zpow_pos e)
  generalize unitSign s * x = y at htie hnear
  rcases abs_eq_abs.1 htie with heq | heq
  · linarith
  · rw [abs_of_nonneg (by linarith : 0 ≤ y - (m : ℚ) * 2 ^ e)] at hnear
    have hnearer := abs_lt.2 (⟨by linarith, by linarith⟩ : -(y - (m : ℚ) * 2 ^ e) <
      y - (m + 1 : ℕ) * 2 ^ e ∧ y - (m + 1 : ℕ) * 2 ^ e < y - (m : ℚ) * 2 ^ e)
    linarith

theorem IsNearest.unique {s : Bool} {x : ℚ} {v w : Binary64} (hv : IsNearest s x v)
    (hw : IsNearest s x w) : v = w := by
  cases v with
  | nan => exact absurd hv.isFinite Bool.false_ne_true
  | infinity => exact absurd hv.isFinite Bool.false_ne_true
  | finite t m e hm =>
    cases w with
    | nan => exact absurd hw.isFinite Bool.false_ne_true
    | infinity => exact absurd hw.isFinite Bool.false_ne_true
    | finite t' n f hn =>
      obtain rfl : t = s := hv.isNegative
      obtain rfl : t' = t := hw.isNegative
      exact finite_eq_of_value_eq _ hm hn (le_antisymm (not_lt.1 (hw.not_value_lt hv))
        (not_lt.1 (hv.not_value_lt hw)))

/-! ### Overflow -/

/-- In the greatest unit there must not be `2^53` after rounding, and there is no greater unit. -/
theorem isFinite_nearest_iff_unit (negative : Bool) (hq : 0 < q) :
    (nearest negative q).isFinite = true ↔ unitOf q < 971 ∨
      unitOf q = 971 ∧ nearestNat (q / 2 ^ unitOf q) ≤ 2 ^ 53 - 1 := by
  obtain ⟨hlt, hge⟩ := unitOf_bounds hq
  have hx : 0 ≤ q / 2 ^ unitOf q := div_nonneg hq.le (two_zpow_pos _).le
  have hle := nearestNat_le hx hlt.le
  have hleast : -1074 ≤ unitOf q := le_max_right _ _
  unfold nearest
  rw [if_neg hq.ne']
  dsimp only
  split_ifs with htop
  · rw [isFinite_ofParts, htop, Canonical, twoPow_eq, twoPow_eq]
    refine ⟨fun h => .inl (by omega), ?_⟩
    rintro (h | ⟨-, h⟩)
    · exact ⟨by norm_num, by omega, by omega, .inl le_rfl⟩
    · norm_num at h
  · rw [isFinite_ofParts, Canonical, twoPow_eq, twoPow_eq]
    rw [twoPow_eq] at htop
    refine ⟨fun h => ?_, fun h => ⟨by omega, hleast, by omega, ?_⟩⟩
    · omega
    · by_cases hunit : unitOf q = -1074
      · exact .inr hunit
      · exact .inl (le_nearestNat (hge hunit))

/-- **What overflows.**  A rounded number is finite exactly if the number that is rounded is less
than the greatest number of the format and half a unit more. -/
theorem isFinite_nearest_iff (negative : Bool) (hq : 0 ≤ q) :
    (nearest negative q).isFinite = true ↔ q < 2 ^ 1024 - 2 ^ 970 := by
  have h971 : (2 : ℚ) ^ (971 : ℤ) = 2 * 2 ^ (970 : ℤ) := zpow_one_add₀ two_ne_zero 970
  have h972 : (2 : ℚ) ^ (972 : ℤ) = 2 * 2 ^ (971 : ℤ) := zpow_one_add₀ two_ne_zero 971
  have hgrow : ∀ (m : ℕ) {e f : ℤ}, e ≤ f → (m : ℚ) * 2 ^ e ≤ m * 2 ^ f := fun m _ _ hle =>
    mul_le_mul_of_nonneg_left (zpow_le_zpow_right₀ (by norm_num) hle) (Nat.cast_nonneg m)
  have hlimit : (2 : ℚ) ^ 1024 - 2 ^ 970 = ((2 ^ 53 - 1 : ℕ) + 1 / 2) * 2 ^ (971 : ℤ) := by
    have h1024 : (2 : ℚ) ^ 1024 = 2 ^ 54 * 2 ^ 970 := pow_add 2 54 970
    rw [h971, h1024, show (970 : ℤ) = (970 : ℕ) from rfl, zpow_natCast]
    generalize (2 : ℚ) ^ 970 = p
    norm_num
    ring
  rcases hq.eq_or_lt with rfl | hpos
  · rw [nearest, if_pos rfl, hlimit]
    exact iff_of_true rfl (by positivity)
  rw [isFinite_nearest_iff_unit negative hpos, hlimit]
  obtain ⟨hbelow, habove⟩ := unitOf_bounds hpos
  -- By the unit of `q`: the count of units matters only at the greatest one.
  rcases lt_trichotomy (unitOf q) 971 with hlt | heq | hgt
  · refine iff_of_true (.inl hlt) ?_
    calc q < (2 ^ 53 : ℕ) * 2 ^ unitOf q := (div_lt_iff₀ (two_zpow_pos _)).1 hbelow
      _ ≤ (2 ^ 53 : ℕ) * 2 ^ (970 : ℤ) := hgrow _ (by omega)
      _ ≤ ((2 ^ 53 - 1 : ℕ) + 1 / 2) * 2 ^ (971 : ℤ) := by
        rw [h971, ← mul_assoc]
        exact mul_le_mul_of_nonneg_right (by norm_num) (two_zpow_pos _).le
  · rw [heq, nearestNat_le_iff_of_odd (div_nonneg hq (two_zpow_pos _).le) (by norm_num),
      div_lt_iff₀ (two_zpow_pos _)]
    exact ⟨fun h => (h.resolve_left (lt_irrefl _)).2, fun h => .inr ⟨rfl, h⟩⟩
  · refine iff_of_false (by omega) (not_lt.2 ?_)
    calc ((2 ^ 53 - 1 : ℕ) + 1 / 2) * 2 ^ (971 : ℤ) ≤ ((2 ^ 52 : ℕ) : ℚ) * 2 ^ (972 : ℤ) := by
          rw [h972, ← mul_assoc]
          exact mul_le_mul_of_nonneg_right (by norm_num) (two_zpow_pos _).le
      _ ≤ (2 ^ 52 : ℕ) * 2 ^ unitOf q := hgrow _ (by omega)
      _ ≤ q := (le_div_iff₀ (two_zpow_pos _)).1 (habove (by omega))

end HandPath.Binary64

namespace HandPath.Decimal

open Binary64

/-! ### Decimals -/

/-- The value of a decimal. -/
def toRat (d : Decimal) : ℚ := unitSign d.negative * d.magnitudeOf

theorem magnitudeOf_nonneg (d : Decimal) : 0 ≤ d.magnitudeOf := by
  unfold magnitudeOf
  positivity

theorem abs_toRat (d : Decimal) : |d.toRat| = d.magnitudeOf := by
  rw [toRat, unitSign, abs_mul, abs_of_nonneg d.magnitudeOf_nonneg]
  split_ifs <;> simp

theorem isFinite_toBinary64_iff (d : Decimal) :
    d.toBinary64.isFinite = true ↔ |d.toRat| < 2 ^ 1024 - 2 ^ 970 := by
  rw [toBinary64_eq, isFinite_nearest_iff d.negative d.magnitudeOf_nonneg, abs_toRat]

/-- A decimal is read as the nearest number of its sign. -/
theorem isNearest_toBinary64 {d : Decimal} (h : d.toBinary64.isFinite = true) :
    IsNearest d.negative d.toRat d.toBinary64 := by
  rw [toBinary64_eq] at h ⊢
  exact isNearest_nearest d.magnitudeOf_nonneg h

end HandPath.Decimal
