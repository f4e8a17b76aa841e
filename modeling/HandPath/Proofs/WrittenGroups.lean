import HandPath.Proofs.Equality
import HandPath.Proofs.Reading
import Mathlib.Order.Bounds.Basic

/-!
# HandPath.Proofs.WrittenGroups — numbers and groups are written safely and exactly

The text of a finite number is a numeral of plain characters, and the number nearest to its value is
equal to the number (`exists_readAs`); so it tells numbers apart up to the sign of a zero
(`numberChars_eq_iff`).  The group of a point shows its components up to the last that is not zero,
and at least one (`exists_groupValues_eq_take`).

Main statement (`written_read_back`): what is written for finite numbers and points is read back as
an equal number or point, and nothing in a group can be taken for a part of the text around it.
-/

namespace HandPath

open Notation Decimal Text

/-! ### Numbers -/

namespace Binary64

/-- What is read from a text of plain characters is what it denotes as a numeral. -/
theorem ofText?_of_plain {cs : List Char} (h : Plain cs) :
    ofText? cs = (ofNumeral? cs).map toBinary64 := by
  obtain ⟨sign, hsign, heq⟩ := exists_signText cs
  have hword : ∀ d w, isPlain d = false → (signOf cs).2 ≠ d :: w := by
    intro d w hd hrest
    have hmem : d ∈ cs := by
      rw [heq, hrest]
      simp
    rw [h d hmem] at hd
    nomatch hd
  unfold ofText?
  split
  · next hrest => exact absurd (congrArg Prod.snd hrest) (hword 'n' _ (by decide))
  · next hrest => exact absurd (congrArg Prod.snd hrest) (hword 'i' _ (by decide))
  · rfl

/-- The text of a finite number is read as a number equal to it. -/
theorem exists_readAs {v : Binary64} (hv : v.isFinite = true) :
    ∃ v', ReadAs v.numberChars v' ∧ ofText? v.numberChars = some v' ∧ (v' == v) = true := by
  obtain ⟨v', hv', heq⟩ := exists_componentText hv
  refine ⟨v', componentText_iff.1 hv', ?_, heq⟩
  obtain ⟨d, hd, -, rfl, -⟩ := hv'
  rw [ofText?_of_plain (plain_numberChars hv), ofNumeral?_eq_some_iff.2 hd]
  rfl

theorem numberChars_eq_iff {v w : Binary64} (hv : v.isFinite = true) (hw : w.isFinite = true) :
    v.numberChars = w.numberChars ↔ (v == w) = true := by
  refine ⟨fun h => ?_, numberChars_congr⟩
  -- What is read from the common text is equal to both.
  obtain ⟨v', -, hread, hvv⟩ := exists_readAs hv
  obtain ⟨w', -, hread', hww⟩ := exists_readAs hw
  rw [← h, hread] at hread'
  cases hread'
  exact beq_of_common hvv hww

theorem isZero_iff {v : Binary64} : v.isZero = true ↔ (v == zero false) = true := by
  constructor
  · exact fun h => beq_symm (zero_beq_of_isZero h)
  · intro h
    rw [isZero_congr h]
    rfl

end Binary64

/-! ### Groups -/

namespace Coordinate

/-- The components of a point in the order of a group. -/
def inGroupOrder (c : Coordinate) : List Binary64 := [c.x, c.z, c.y]

/-- The first `k` components are enough for a group: there is one, and all later ones are zero. -/
def Suffices (c : Coordinate) (k : ℕ) : Prop :=
  1 ≤ k ∧ ∀ v ∈ c.inGroupOrder.drop k, (v == .zero false) = true

variable {c : Coordinate}

theorem suffices_iff {k : ℕ} : c.Suffices k ↔
    1 ≤ k ∧ (k < 3 → c.y.isZero = true) ∧ (k < 2 → c.z.isZero = true) := by
  rcases k with _ | _ | _ | k
  · simp [Suffices]
  · simp [Suffices, inGroupOrder, Binary64.isZero_iff, and_comm]
  · simp [Suffices, inGroupOrder, Binary64.isZero_iff]
  · simp [Suffices, inGroupOrder]

/-- A group shows no more components than it has to. -/
theorem exists_groupValues_eq_take (c : Coordinate) :
    ∃ k, IsLeast {k | c.Suffices k} k ∧ c.groupValues = c.inGroupOrder.take k := by
  unfold groupValues
  by_cases hy : c.y.isZero = true
  · by_cases hz : c.z.isZero = true
    · refine ⟨1, ⟨suffices_iff.2 ⟨le_rfl, fun _ => hy, fun _ => hz⟩, fun k hk => hk.1⟩, ?_⟩
      simp [hy, hz, inGroupOrder]
    · refine ⟨2, ⟨suffices_iff.2 ⟨by decide, fun _ => hy, fun h => absurd h (by decide)⟩,
        fun k hk => ?_⟩, ?_⟩
      · exact Nat.le_of_not_lt fun hlt => hz ((suffices_iff.1 hk).2.2 hlt)
      · simp [hy, hz, inGroupOrder]
  · refine ⟨3, ⟨suffices_iff.2 ⟨by decide, fun h => absurd h (by decide),
      fun h => absurd h (by decide)⟩, fun k hk => ?_⟩, ?_⟩
    · exact Nat.le_of_not_lt fun hlt => hy ((suffices_iff.1 hk).2.1 hlt)
    · simp [hy, inGroupOrder]

theorem splitOn_groupInside (hc : c.isFinite = true) :
    c.groupInside.splitOn ',' = c.groupValues.map Binary64.numberChars := by
  refine List.splitOn_intercalate ',' (fun w hw hcomma => ?_) (by simp [groupValues_ne_nil])
  obtain ⟨v, hv, rfl⟩ := List.mem_map.1 hw
  exact absurd (plain_numberChars (isFinite_of_mem_groupValues hc v hv) _ hcomma) (by decide)

/-- Nothing in a group ends it, is dropped from a text, or parts its segments. -/
theorem inert_of_mem_groupInside (hc : c.isFinite = true) {d : Char} (hd : d ∈ c.groupInside) :
    d ≠ ')' ∧ d ≠ ' ' ∧ isDelimiter d = false ∧ isDecoration d = false := by
  have hplain := isPlain_of_mem_groupInside hc hd
  have hcanonical : isCanonical d = true := by
    rcases hplain with rfl | h
    · rfl
    · exact isCanonical_of_isPlain h
  refine ⟨?_, ?_, isDelimiter_of_isCanonical (.inr hcanonical),
    isDecoration_of_isCanonical (.inr hcanonical)⟩
  · rintro rfl
    exact absurd hplain (by decide)
  · rintro rfl
    exact absurd hplain (by decide)

end Coordinate

/-- **What is written is safe and exact.**  The text of a finite number has plain characters only;
it is a numeral, and the number nearest to its value, which is the one that is read, is equal to the
number.  Finite numbers have the same text exactly if they are equal.  The group of a finite point
is a text between parentheses in which no character has a meaning outside of it; its parts are the
fewest of x, z and y, and at least one, such that those left out are zero; and it is read as an
equal point. -/
theorem written_read_back :
    (∀ v : Binary64, v.isFinite = true → Plain v.numberChars ∧
      ∃ v', ReadAs v.numberChars v' ∧ Binary64.ofText? v.numberChars = some v' ∧
        (v' == v) = true) ∧
    (∀ v w : Binary64, v.isFinite = true → w.isFinite = true →
      (v.numberChars = w.numberChars ↔ (v == w) = true)) ∧
    ∀ c : Coordinate, c.isFinite = true → ∃ t k, c.groupChars = '(' :: t ++ [')'] ∧
      (∀ d ∈ t, d ≠ ')' ∧ d ≠ ' ' ∧ isDelimiter d = false ∧ isDecoration d = false) ∧
      IsLeast {k | c.Suffices k} k ∧
      t.splitOn ',' = (c.inGroupOrder.take k).map Binary64.numberChars ∧
      ∃ c', (∀ juggler beat, readGroup t juggler beat = .ok c') ∧ (c' == c) = true := by
  refine ⟨fun v hv => ⟨plain_numberChars hv, Binary64.exists_readAs hv⟩,
    fun v w hv hw => Binary64.numberChars_eq_iff hv hw, fun c hc => ?_⟩
  obtain ⟨k, hk, hvalues⟩ := c.exists_groupValues_eq_take
  obtain ⟨c', hgroup, heq⟩ := exists_groupText hc
  refine ⟨c.groupInside, k, rfl, fun d hd => Coordinate.inert_of_mem_groupInside hc hd, hk, ?_,
    c', fun juggler beat => readGroup_eq_ok_iff.2 hgroup, heq⟩
  rw [Coordinate.splitOn_groupInside hc, hvalues]

/-- The number next to zero and below it, a zero with its sign, and three. -/
theorem written_read_back_next_to_zero : ∃ c : Coordinate,
    c = ⟨.ofParts true 1 (-1074), .zero true, .ofParts false 6755399441055744 (-51)⟩ ∧
    (∃ v, Binary64.ofText? c.x.numberChars = some v ∧ (v == c.x) = true) ∧
    c.y.numberChars = (Binary64.zero false).numberChars ∧
    ∃ c', readGroup ['-', '5', 'e', '-', '3', '2', '4', ',', '3'] none none = .ok c' ∧
      (c' == c) = true := by
  let c : Coordinate :=
    ⟨.ofParts true 1 (-1074), .zero true, .ofParts false 6755399441055744 (-51)⟩
  have hchars : c.groupChars = '(' :: ['-', '5', 'e', '-', '3', '2', '4', ',', '3'] ++ [')'] := by
    decide +kernel
  obtain ⟨hnumber, hequal, hgroup⟩ := written_read_back
  obtain ⟨-, v, -, hread, hvx⟩ := hnumber c.x (by decide +kernel)
  have hy : c.y.numberChars = (Binary64.zero false).numberChars := (hequal _ _ rfl rfl).2 rfl
  obtain ⟨t, k, ht, -, -, -, c', hc', heq⟩ := hgroup c (by decide +kernel)
  rw [hchars] at ht
  obtain rfl := (List.cons.inj (List.append_cancel_right ht)).2
  exact ⟨c, rfl, ⟨v, hread, hvx⟩, hy, c', hc' none none, heq⟩

end HandPath
