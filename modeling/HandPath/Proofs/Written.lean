import HandPath.Decimal.Format
import HandPath.Proofs.Numeral
import HandPath.Proofs.Rounding
import HandPath.Proofs.Traversal

/-!
# HandPath.Proofs.Written — written numbers read back

Every text of a finite number is a numeral, and the decimal that it denotes is read as the number.
The digits of a natural number denote it (`exists_digitText_natChars`), digits with a point or with
an exponent denote their value (`exists_numeralText_chars`), and the shortest decimal is read as the
number it is for (`toBinary64_shortest`).

Main statement (`exists_numeralText_numberChars`): what is written for a finite number denotes a
decimal whose nearest number equals it.
-/

namespace HandPath.Text

open Decimal

/-! ### Digits -/

theorem ofDigits_append (ds es : List ℕ) :
    ofDigits (ds ++ es) = ofDigits ds * 10 ^ es.length + ofDigits es := by
  induction es using List.reverseRecOn with
  | nil => simp [ofDigits]
  | append_singleton es e ih =>
    have hlast : ∀ l : List ℕ, ofDigits (l ++ [e]) = 10 * ofDigits l + e := fun l => by
      simp [ofDigits]
    rw [← List.append_assoc, hlast, hlast, ih, List.length_append, List.length_singleton, pow_succ]
    ring

theorem ofDigits_replicate_zero (n : ℕ) : ofDigits (List.replicate n 0) = 0 := by
  induction n with
  | zero => rfl
  | succ n ih =>
    rw [List.replicate_succ', ofDigits_append, ih]
    rfl

theorem digitText_replicate_zero (n : ℕ) :
    DigitText (List.replicate n '0') (List.replicate n 0) := by
  induction n with
  | zero => exact .nil
  | succ n ih => exact .cons (by decide) ih

theorem eq_replicate_of_digitText {n : ℕ} {ds : List ℕ}
    (h : DigitText (List.replicate n '0') ds) : ds = List.replicate n 0 := by
  rw [← h.filterMap, (digitText_replicate_zero n).filterMap]

/-- The digits of a natural number denote it. -/
theorem exists_digitText_natChars (n : ℕ) :
    ∃ ds, DigitText (natChars n) ds ∧ ds ≠ [] ∧ ofDigits ds = n := by
  have hdigit : ∀ d < 10, digitValue? d.digitChar = some d := by decide
  -- The last digit is `n % 10`, and those before it are the digits of `n / 10`.
  induction n using Nat.strong_induction_on with
  | _ n ih =>
    by_cases h : n < 10
    · refine ⟨[n], ?_, List.cons_ne_nil _ _, Nat.zero_add n⟩
      rw [natChars, Nat.toDigits_of_lt_base h]
      exact .cons (hdigit n h) .nil
    · obtain ⟨ds, hds, -, hval⟩ := ih (n / 10) (by omega)
      refine ⟨ds ++ [n % 10], ?_, by simp, ?_⟩
      · rw [natChars, Nat.toDigits_of_base_le (by decide) (by omega)]
        exact List.rel_append hds (.cons (hdigit _ (Nat.mod_lt n (by decide))) .nil)
      · rw [ofDigits_append, hval]
        show n / 10 * 10 + (0 + n % 10) = n
        omega

end HandPath.Text

namespace HandPath.Decimal

open Text

/-- Zeros in front make no difference. -/
theorem exists_digitText_padZeros (width n : ℕ) :
    ∃ ds, DigitText (padZeros width (natChars n)) ds ∧ ds ≠ [] ∧ ofDigits ds = n := by
  obtain ⟨ds, hds, hne, hval⟩ := exists_digitText_natChars n
  refine ⟨_, List.rel_append (digitText_replicate_zero _) hds, by simp [hne], ?_⟩
  rw [ofDigits_append, ofDigits_replicate_zero, zero_mul, zero_add, hval]

/-- The digits of a coefficient, without the zeros at its end, denote what is left of it. -/
theorem exists_digitText_significantChars (c : ℕ) :
    ∃ ds z, DigitText (significantChars c) ds ∧ ds ≠ [] ∧ ofDigits ds * 10 ^ z = c ∧
      (c ≠ 0 → ds.length + z = (natChars c).length) := by
  obtain ⟨es, hes, -, hval⟩ := exists_digitText_natChars c
  -- The zeros at the end are cut off; a text of zeros only keeps one.
  have hsplit := List.rdropWhile_append_rtakeWhile (p := (· == '0')) (l := natChars c)
  have hzeros : (natChars c).rtakeWhile (· == '0') =
      List.replicate ((natChars c).rtakeWhile (· == '0')).length '0' :=
    List.eq_replicate_of_mem fun x hx => by simpa using List.mem_rtakeWhile_imp hx
  rw [hzeros] at hsplit
  generalize ((natChars c).rtakeWhile (· == '0')).length = z at hsplit
  have hlen := congrArg List.length hsplit
  rw [← hsplit] at hes
  obtain ⟨ds, zs, hds, hzs, rfl⟩ := Traversal.forall₂_append_left_iff.1 hes
  rw [eq_replicate_of_digitText hzs, ofDigits_append, ofDigits_replicate_zero,
    List.length_replicate, Nat.add_zero] at hval
  rw [List.length_append, List.length_replicate, hds.length_eq] at hlen
  unfold significantChars
  change ∃ ds z, DigitText (if ((natChars c).rdropWhile (· == '0')).isEmpty then ['0']
    else (natChars c).rdropWhile (· == '0')) ds ∧ _
  by_cases hempty : (natChars c).rdropWhile (· == '0') = []
  · have hnil : ds = [] := (DigitText.eq_nil_iff hds).1 hempty
    subst hnil
    have hc : c = 0 := by simpa [ofDigits] using hval.symm
    rw [hempty]
    refine ⟨[0], 0, .cons (by decide) .nil, List.cons_ne_nil _ _, by rw [hc]; rfl, ?_⟩
    exact fun h => absurd hc h
  · rw [if_neg (by simpa using hempty)]
    refine ⟨ds, z, hds, ?_, hval, fun _ => hlen⟩
    rintro rfl
    exact hempty ((DigitText.eq_nil_iff hds).2 rfl)


/-! ### Digits with a point -/

/-- The value of digits whose last `places` stand behind the point. -/
def fixedPoint (ds : List ℕ) (places : ℤ) : ℚ := ofDigits ds * 10 ^ (-places)

theorem fixedPoint_eq {ds es : List ℕ} {places places' : ℤ} {z : ℕ}
    (hval : ofDigits ds = ofDigits es * 10 ^ z) (hplaces : places = places' + z) :
    fixedPoint ds places = fixedPoint es places' := by
  unfold fixedPoint
  rw [hval, hplaces, Nat.cast_mul, Nat.cast_pow, Nat.cast_ofNat, ← zpow_natCast, mul_assoc,
    ← zpow_add₀ (by norm_num)]
  congr 2
  omega

theorem positional_of_neg {p : ℤ} (hp : p < 0) (cs : List Char) : positional cs p =
    ['0'] ++ '.' :: (List.replicate (-p - 1).toNat '0' ++ cs) := by
  rw [positional, if_pos hp]
  rfl

theorem positional_of_length_le {p : ℤ} (hp : ¬ p < 0) {cs : List Char}
    (h : cs.length ≤ p.toNat + 1) : positional cs p =
      cs ++ List.replicate (p.toNat + 1 - cs.length) '0' ++ '.' :: ['0'] := by
  unfold positional
  simp [hp, List.drop_eq_nil_of_le h, List.take_of_length_le h]

theorem positional_of_lt_length {p : ℤ} (hp : ¬ p < 0) {cs : List Char}
    (h : p.toNat + 1 < cs.length) :
    positional cs p = cs.take (p.toNat + 1) ++ '.' :: cs.drop (p.toNat + 1) := by
  have hdrop : ¬ (cs.drop (p.toNat + 1)).isEmpty = true := by
    rw [List.isEmpty_iff, List.drop_eq_nil_iff]
    omega
  unfold positional
  simp [hp, hdrop, show p.toNat + 1 - cs.length = 0 by omega]

theorem exists_mantissaText_positional {cs : List Char} {ds : List ℕ} (h : DigitText cs ds)
    (hne : ds ≠ []) (p : ℤ) :
    ∃ whole fraction, MantissaText (positional cs p) whole fraction ∧
      fixedPoint (whole ++ fraction) fraction.length = fixedPoint ds (ds.length - 1 - p) := by
  have hlen := h.length_eq
  have hzero : DigitText ['0'] [0] := .cons (by decide) .nil
  by_cases hp : p < 0
  · rw [positional_of_neg hp]
    set k := (-p - 1).toNat with hk
    have hfraction := List.rel_append (digitText_replicate_zero k) h
    refine ⟨[0], List.replicate k 0 ++ ds, .point hzero hfraction (by simp),
      fixedPoint_eq (z := 0) ?_ ?_⟩
    · have hzeros : [0] ++ List.replicate k 0 = List.replicate (k + 1) 0 := rfl
      rw [← List.append_assoc, hzeros, ofDigits_append, ofDigits_replicate_zero, zero_mul, zero_add,
        pow_zero, mul_one]
    · rw [List.length_append, List.length_replicate]
      omega
  by_cases hle : cs.length ≤ p.toNat + 1
  · -- the digits end before the point
    rw [positional_of_length_le hp hle]
    set k := p.toNat + 1 - cs.length with hk
    have hwhole := List.rel_append h (digitText_replicate_zero k)
    refine ⟨ds ++ List.replicate k 0, [0], .point hwhole hzero (by simp),
      fixedPoint_eq (z := k + 1) ?_ ?_⟩
    · have hzeros : List.replicate k 0 ++ [0] = List.replicate (k + 1) 0 :=
        List.replicate_succ'.symm
      rw [List.append_assoc, hzeros, ofDigits_append, ofDigits_replicate_zero,
        List.length_replicate, Nat.add_zero]
    · rw [List.length_singleton]
      omega
  · -- the point stands among the digits
    rw [positional_of_lt_length hp (by omega)]
    set w := p.toNat + 1 with hw
    have hsplit := List.take_append_drop w ds
    refine ⟨ds.take w, ds.drop w, .point (List.forall₂_take w h) (List.forall₂_drop w h) ?_, ?_⟩
    · rwa [hsplit]
    · rw [hsplit]
      refine fixedPoint_eq (z := 0) (by rw [pow_zero, mul_one]) ?_
      rw [List.length_drop]
      omega

/-! ### Digits with an exponent -/

theorem exists_mantissaText_scientific {cs : List Char} {ds : List ℕ} (h : DigitText cs ds)
    (hne : ds ≠ []) : ∃ whole fraction,
      MantissaText (cs.take 1 ++ if cs.length ≤ 1 then [] else '.' :: cs.drop 1) whole fraction ∧
        whole ++ fraction = ds ∧ fraction.length + 1 = ds.length := by
  have hlen := h.length_eq
  have hpos := List.length_pos_iff.2 hne
  by_cases hle : cs.length ≤ 1
  · rw [if_pos hle, List.append_nil, List.take_of_length_le hle]
    refine ⟨ds, [], .whole h hne, List.append_nil ds, ?_⟩
    rw [List.length_nil]
    omega
  · rw [if_neg hle]
    refine ⟨ds.take 1, ds.drop 1, .point (List.forall₂_take 1 h) (List.forall₂_drop 1 h) ?_,
      List.take_append_drop 1 ds, ?_⟩
    · rwa [List.take_append_drop]
    · rw [List.length_drop]
      omega

theorem exponentText_natAbs {e : Char} (he : e = 'e' ∨ e = 'E') (p : ℤ) (width : ℕ) :
    ExponentText (e :: (if p < 0 then '-' else '+') :: padZeros width (natChars p.natAbs)) p := by
  obtain ⟨ds, hds, hne, hval⟩ := exists_digitText_padZeros width p.natAbs
  by_cases hp : p < 0
  · have hexponent := ExponentText.present he .minus hds hne
    rw [if_pos rfl, hval, show -(p.natAbs : ℤ) = p by omega] at hexponent
    rwa [if_pos hp]
  · have hexponent := ExponentText.present he .plus hds hne
    rw [if_neg Bool.false_ne_true, hval, show (p.natAbs : ℤ) = p by omega] at hexponent
    rwa [if_neg hp]

/-! ### Decimals -/

theorem signText_of (negative : Bool) : SignText (if negative then ['-'] else []) negative := by
  cases negative with
  | false => exact .absent
  | true => exact .minus

/-- A numeral without blanks. -/
theorem numeralText_of {sign mantissa exponent : List Char} {negative : Bool}
    {whole fraction : List ℕ} {k : ℤ} (hsign : SignText sign negative)
    (hmantissa : MantissaText mantissa whole fraction) (hexponent : ExponentText exponent k) :
    NumeralText (sign ++ (mantissa ++ exponent))
      ⟨negative, ofDigits (whole ++ fraction), k - fraction.length⟩ := by
  have hblank : ∀ c ∈ ([] : List Char), isBlank c = true := by simp
  have hnumeral := NumeralText.mk hblank hsign hmantissa hexponent hblank
  rwa [List.append_nil] at hnumeral

theorem magnitudeOf_mk (negative : Bool) (ds : List ℕ) (places k : ℤ) :
    magnitudeOf ⟨negative, ofDigits ds, k - places⟩ = fixedPoint ds places * 10 ^ k := by
  unfold magnitudeOf fixedPoint
  dsimp only
  rw [mul_assoc, ← zpow_add₀ (by norm_num)]
  congr 2
  omega

/-- The power of ten of the first digit of a decimal. -/
def leadingPower (d : Decimal) : ℤ :=
  if d.coefficient = 0 then 0 else ((natChars d.coefficient).length : ℤ) - 1 + d.exponent

/-- The significant digits denote the value of a decimal, if the first of them stands for its
power. -/
theorem exists_digitText_leadingPower (d : Decimal) :
    ∃ ds, DigitText (significantChars d.coefficient) ds ∧ ds ≠ [] ∧
      fixedPoint ds (ds.length - 1) * 10 ^ leadingPower d = d.magnitudeOf := by
  obtain ⟨ds, z, hds, hne, hval, hlen⟩ := exists_digitText_significantChars d.coefficient
  refine ⟨ds, hds, hne, ?_⟩
  unfold magnitudeOf fixedPoint leadingPower
  -- Zero has no first digit, and its power is set to zero.
  by_cases hc : d.coefficient = 0
  · have hzero : ofDigits ds = 0 := by
      rw [hc] at hval
      exact (Nat.mul_eq_zero.1 hval).resolve_right (by positivity)
    rw [hzero, hc, Nat.cast_zero, zero_mul, zero_mul, zero_mul]
  · rw [if_neg hc, ← hlen hc, ← hval, Nat.cast_mul, Nat.cast_pow, Nat.cast_ofNat,
      ← zpow_natCast, mul_assoc, mul_assoc, ← zpow_add₀ (by norm_num), ← zpow_add₀ (by norm_num)]
    congr 2
    omega

/-- The text of a decimal is a numeral with its sign and its value. -/
theorem exists_numeralText_chars (format : Format)
    (hletter : format.exponentLetter = 'e' ∨ format.exponentLetter = 'E') (d : Decimal) :
    ∃ d', NumeralText (chars format d) d' ∧ d'.negative = d.negative ∧
      d'.magnitudeOf = d.magnitudeOf := by
  obtain ⟨ds, hds, hne, hvalue⟩ := exists_digitText_leadingPower d
  have hsign := signText_of d.negative
  unfold chars
  dsimp only
  change ∃ d', NumeralText (_ ++ if format.leastPositional ≤ leadingPower d ∧
    leadingPower d < format.firstScientific then positional _ (leadingPower d)
    else scientific format _ (leadingPower d)) d' ∧ _
  rw [← hvalue]
  generalize leadingPower d = p
  -- Both ways of writing show the same digits, and the power places the point.
  by_cases hp : format.leastPositional ≤ p ∧ p < format.firstScientific
  · rw [if_pos hp]
    obtain ⟨whole, fraction, hmantissa, hfixed⟩ := exists_mantissaText_positional hds hne p
    have hnumeral := numeralText_of hsign hmantissa .absent
    rw [List.append_nil] at hnumeral
    refine ⟨_, hnumeral, rfl, ?_⟩
    rw [magnitudeOf_mk, hfixed]
    unfold fixedPoint
    rw [zpow_zero, mul_one, mul_assoc, ← zpow_add₀ (by norm_num)]
    congr 2
    omega
  · rw [if_neg hp]
    obtain ⟨whole, fraction, hmantissa, hsplit, hlength⟩ := exists_mantissaText_scientific hds hne
    have hexponent := exponentText_natAbs hletter p format.exponentDigits
    refine ⟨_, numeralText_of hsign hmantissa hexponent, rfl, ?_⟩
    rw [magnitudeOf_mk, hsplit]
    congr 2
    omega

/-! ### The characters of written numbers -/

/-- Digits, signs, the point and the letter of an exponent. -/
def isPlain (c : Char) : Bool := c.isDigit || c = '-' || c = '+' || c = '.' || c = 'e'

/-- A text with no other characters than those of numbers. -/
def Plain (cs : List Char) : Prop := ∀ c ∈ cs, isPlain c = true

theorem plain_append {cs ds : List Char} : Plain (cs ++ ds) ↔ Plain cs ∧ Plain ds :=
  List.forall_mem_append

theorem plain_cons {c : Char} {cs : List Char} : Plain (c :: cs) ↔ isPlain c = true ∧ Plain cs :=
  List.forall_mem_cons

theorem plain_nil : Plain [] := by simp [Plain]

theorem plain_take {cs : List Char} (h : Plain cs) (n : ℕ) : Plain (cs.take n) := fun c hc =>
  h c (List.mem_of_mem_take hc)

theorem plain_drop {cs : List Char} (h : Plain cs) (n : ℕ) : Plain (cs.drop n) := fun c hc =>
  h c (List.mem_of_mem_drop hc)

theorem plain_replicate (n : ℕ) : Plain (List.replicate n '0') := by
  intro c hc
  rw [List.eq_of_mem_replicate hc]
  rfl

theorem plain_natChars (n : ℕ) : Plain (natChars n) := by
  intro c hc
  rw [isPlain, isDigit_of_mem_natChars hc]
  rfl

theorem plain_significantChars (c : ℕ) : Plain (significantChars c) := by
  unfold significantChars
  dsimp only
  split_ifs
  · exact plain_cons.2 ⟨rfl, plain_nil⟩
  · intro d hd
    have hmem := (List.dropWhile_sublist _).subset (List.mem_reverse.1 hd)
    exact plain_natChars c d (List.mem_reverse.1 hmem)

theorem plain_positional {cs : List Char} (h : Plain cs) (p : ℤ) : Plain (positional cs p) := by
  unfold positional
  by_cases hp : p < 0
  · rw [if_pos hp]
    exact plain_append.2 ⟨plain_cons.2 ⟨rfl, plain_cons.2 ⟨rfl, plain_replicate _⟩⟩, h⟩
  · rw [if_neg hp]
    refine plain_append.2 ⟨plain_append.2 ⟨plain_take h _, plain_replicate _⟩,
      plain_cons.2 ⟨rfl, ?_⟩⟩
    split_ifs
    · exact plain_cons.2 ⟨rfl, plain_nil⟩
    · exact plain_drop h _

theorem plain_scientific {cs : List Char} (h : Plain cs) (p : ℤ) :
    Plain (scientific coordinateFormat cs p) := by
  have hexponent : Plain (padZeros 2 (natChars p.natAbs)) :=
    plain_append.2 ⟨plain_replicate _, plain_natChars _⟩
  have hsign : isPlain (if p < 0 then '-' else '+') = true := by
    split_ifs
    · rfl
    · rfl
  unfold scientific
  refine plain_append.2 ⟨plain_append.2 ⟨plain_take h _, ?_⟩,
    plain_cons.2 ⟨rfl, plain_cons.2 ⟨hsign, hexponent⟩⟩⟩
  split_ifs
  · exact plain_nil
  · exact plain_cons.2 ⟨rfl, plain_drop h _⟩

theorem plain_sign (negative : Bool) : Plain (if negative then ['-'] else []) := by
  cases negative with
  | false => exact plain_nil
  | true => exact plain_cons.2 ⟨rfl, plain_nil⟩

theorem plain_chars (d : Decimal) : Plain (chars coordinateFormat d) := by
  have hdigits := plain_significantChars d.coefficient
  unfold chars
  extract_lets p digits
  refine plain_append.2 ⟨plain_sign _, ?_⟩
  split_ifs
  · exact plain_positional hdigits _
  · exact plain_scientific hdigits _

theorem plain_numberChars {v : Binary64} (hv : v.isFinite = true) : Plain v.numberChars := by
  cases v with
  | nan => nomatch hv
  | infinity s => nomatch hv
  | finite negative m e h =>
    unfold Binary64.numberChars
    cases Binary64.toInt? (.finite negative m e h) with
    | none => exact plain_chars _
    | some n =>
      show Plain (intChars n)
      unfold intChars
      split_ifs
      · exact plain_cons.2 ⟨rfl, plain_natChars _⟩
      · exact plain_natChars _

/-! ### The shortest decimal -/

open Binary64

theorem hit_of_neighbour? {hit : ℕ → Bool} {n d c : ℕ} {k : ℤ}
    (h : neighbour? hit n d k = some c) : hit c = true := by
  unfold neighbour? at h
  extract_lets u low near far at h
  split_ifs at h with hnear hfar
  · exact Option.some.inj h ▸ hnear
  · exact Option.some.inj h ▸ hfar

theorem hit_of_firstGrid? {hit : ℕ → ℤ → Bool} {n d c : ℕ} {k : ℤ} (fuel digits : ℕ)
    (h : firstGrid? hit n d fuel digits = some (c, k)) : hit c k = true := by
  induction fuel generalizing digits with
  | zero => nomatch h
  | succ fuel ih =>
    unfold firstGrid? at h
    dsimp only at h
    cases hc : neighbour? (fun c => hit c (magnitude n d - digits + 1)) n d
        (magnitude n d - digits + 1) with
    | none =>
      rw [hc] at h
      exact ih (digits + 1) h
    | some c' =>
      rw [hc] at h
      cases h
      exact hit_of_neighbour? hc

theorem eq_of_eqv_finite {v : Binary64} {negative : Bool} {m : ℕ} {e : ℤ} {h : Canonical m e}
    (hm : m ≠ 0) (heq : (v == .finite negative m e h) = true) : v = .finite negative m e h := by
  cases v with
  | nan => nomatch heq
  | infinity s => nomatch heq
  | finite s n f hn =>
    change (n == m && (n == 0 || (s == negative && f == e))) = true at heq
    simp only [Bool.and_eq_true, Bool.or_eq_true, beq_iff_eq] at heq
    obtain ⟨rfl, h0 | ⟨rfl, rfl⟩⟩ := heq
    · exact absurd h0 hm
    · rfl

/-- All digits of the value of a number, as they are written when fewer do not suffice. -/
theorem magnitudeOf_exact (negative : Bool) (m : ℕ) (e : ℤ) :
    magnitudeOf ⟨negative, m * twoPow e.toNat * Nat.pow 5 (-e).toNat, min e 0⟩ = m * 2 ^ e := by
  have hfive : Nat.pow 5 (-e).toNat = 5 ^ (-e).toNat := rfl
  unfold magnitudeOf
  dsimp only
  rw [two_zpow_eq_div, twoPow_eq, twoPow_eq, hfive]
  push_cast
  -- For a negative exponent `2 ^ e` has as many decimal places.
  rcases le_total 0 e with he | he
  · rw [min_eq_right he, show (-e).toNat = 0 by omega]
    simp
  · have hten : (10 : ℚ) ^ e = (2 ^ (-e).toNat * 5 ^ (-e).toNat)⁻¹ := by
      rw [← mul_pow, ← zpow_natCast, ← zpow_neg, Int.toNat_of_nonneg (by omega), neg_neg]
      norm_num
    rw [min_eq_left he, show e.toNat = 0 by omega, hten]
    field_simp

/-- The shortest decimal is read as the number it is for. -/
theorem toBinary64_shortest (negative : Bool) {m : ℕ} {e : ℤ} (h : Canonical m e) :
    (shortest negative m e).toBinary64 = .finite negative m e h := by
  unfold shortest
  by_cases hm : m = 0
  · subst hm
    have he : e = -1074 := h.2.2.2.resolve_left (by decide)
    subst he
    rfl
  rw [if_neg hm]
  dsimp only
  -- Either the search has found a decimal that reads back, or all digits are written.
  split
  · rename_i c k hfirst
    have hhit := hit_of_firstGrid? 17 1 hfirst
    rw [show ofParts false m e = .finite false m e h from dif_pos h] at hhit
    have hread := eq_of_eqv_finite hm hhit
    rw [toBinary64_eq] at hread ⊢
    exact (withSign_nearest negative false _).symm.trans (congrArg (withSign negative) hread)
  · rw [toBinary64_eq, magnitudeOf_exact]
    exact nearest_exact negative h hm

end HandPath.Decimal

namespace HandPath.Binary64

open Text Decimal

/-! ### Numbers -/

theorem eqv_finite_self (negative : Bool) {m : ℕ} {e : ℤ} (h : Canonical m e) :
    ((.finite negative m e h : Binary64) == .finite negative m e h) = true := by
  show (m == m && (m == 0 || (negative == negative && e == e))) = true
  simp

/-- The integer that a number is has its sign, unless it is zero, and its size. -/
theorem toInt?_eq_some {negative : Bool} {m : ℕ} {e : ℤ} {h : Canonical m e} {n : ℤ}
    (hn : toInt? (.finite negative m e h) = some n) :
    (n.natAbs : ℚ) = m * 2 ^ e ∧ n = (if negative then -1 else 1) * (n.natAbs : ℤ) := by
  have hsign : ∀ a : ℕ, (if negative then (-1 : ℤ) else 1) * a = n →
      (n.natAbs : ℤ) = a ∧ n = (if negative then -1 else 1) * (n.natAbs : ℤ) := by
    rintro a rfl
    cases negative with
    | false => simp
    | true => simp
  unfold toInt? at hn
  dsimp only at hn
  generalize (if negative then (-1 : ℤ) else 1) = sign at hn hsign ⊢
  split_ifs at hn with he hdvd
  · obtain ⟨habs, hn⟩ := hsign _ (Option.some.inj hn)
    refine ⟨?_, hn⟩
    rw [Int.natCast_inj.1 habs, two_zpow_eq_div, show (-e).toNat = 0 by omega, Nat.cast_mul]
    simp [twoPow_eq]
  · obtain ⟨habs, hn⟩ := hsign _ (Option.some.inj hn)
    refine ⟨?_, hn⟩
    rw [Int.natCast_inj.1 habs, two_zpow_eq_div, show e.toNat = 0 by omega,
      Nat.cast_div (Nat.dvd_of_mod_eq_zero hdvd) (Nat.cast_ne_zero.2 (twoPow_pos _).ne')]
    simp [twoPow_eq, div_eq_mul_inv]

theorem exists_numeralText_intChars (n : ℤ) :
    ∃ d, NumeralText (intChars n) d ∧ d.negative = decide (n < 0) ∧
      d.magnitudeOf = (n.natAbs : ℚ) := by
  obtain ⟨ds, hds, hne, hval⟩ := exists_digitText_natChars n.natAbs
  have hnumeral := numeralText_of (signText_of (decide (n < 0))) (.whole hds hne) .absent
  have hchars : intChars n =
      (if decide (n < 0) then ['-'] else []) ++ (natChars n.natAbs ++ []) := by
    unfold intChars
    by_cases hn : n < 0
    · simp [hn]
    · simp [hn]
  rw [hchars]
  refine ⟨_, hnumeral, rfl, ?_⟩
  rw [magnitudeOf_mk]
  unfold fixedPoint
  rw [List.append_nil, hval]
  simp

/-- A number that is an integer is read from all its digits. -/
theorem nearest_natAbs {negative : Bool} {m : ℕ} {e : ℤ} {h : Canonical m e} {n : ℤ}
    (hn : toInt? (.finite negative m e h) = some n) :
    (nearest (decide (n < 0)) n.natAbs == .finite negative m e h) = true := by
  obtain ⟨hsize, hsign⟩ := toInt?_eq_some hn
  by_cases hm : m = 0
  · subst hm
    rw [hsize, Nat.cast_zero, zero_mul, nearest, if_pos rfl]
    rfl
  have hpos : 0 < (m : ℚ) * 2 ^ e :=
    mul_pos (Nat.cast_pos.2 (Nat.pos_of_ne_zero hm)) (two_zpow_pos e)
  have habs : 0 < n.natAbs := by
    rw [← hsize] at hpos
    exact_mod_cast hpos
  -- A number that is not zero has the sign of its integer.
  have hflag : decide (n < 0) = negative := by
    cases negative with
    | false =>
      rw [if_neg Bool.false_ne_true] at hsign
      exact decide_eq_false (by omega)
    | true =>
      rw [if_pos rfl] at hsign
      exact decide_eq_true (by omega)
  rw [hflag, hsize, nearest_exact negative h hm]
  exact eqv_finite_self negative h

/-- **Written numbers read back.**  What is written for a finite number is a numeral, and the number
nearest to what it denotes is equal to the number. -/
theorem exists_numeralText_numberChars {v : Binary64} (hv : v.isFinite = true) :
    ∃ d, NumeralText v.numberChars d ∧ (d.toBinary64 == v) = true := by
  cases v with
  | nan => nomatch hv
  | infinity s => nomatch hv
  | finite negative m e h =>
    unfold numberChars
    cases hn : toInt? (.finite negative m e h) with
    | none =>
      obtain ⟨d, hd, hsign, hvalue⟩ :=
        exists_numeralText_chars coordinateFormat (.inl rfl) (shortest negative m e)
      refine ⟨d, hd, ?_⟩
      rw [toBinary64_congr hsign hvalue, toBinary64_shortest negative h]
      exact eqv_finite_self negative h
    | some n =>
      obtain ⟨d, hd, hnegative, hvalue⟩ := exists_numeralText_intChars n
      refine ⟨d, hd, ?_⟩
      rw [toBinary64_eq, hnegative, hvalue]
      exact nearest_natAbs hn

end HandPath.Binary64
