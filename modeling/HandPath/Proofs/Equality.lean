import HandPath.Proofs.Canonical

/-!
# HandPath.Proofs.Equality — equal patterns and their canonical texts

Numbers of the same value can differ only as the two zeros do, and the text of a number does not
show the sign of a zero (`Binary64.numberChars_zero`).  So equal patterns have the same canonical
text (`Pattern.canonical_congr`), whatever their numbers are; and what is equal to a third is equal
(`Pattern.beq_of_common`).

Main statement (`canonical_eq_canonical_iff`): patterns that texts compile to are equal exactly if
their canonical texts are the same, and a canonical text is that of the pattern it compiles to.
-/

namespace HandPath

open Notation

/-! ### Numbers -/

namespace Binary64

theorem beq_of_common {u v w : Binary64} (hv : (u == v) = true) (hw : (u == w) = true) :
    (v == w) = true := by
  rcases eq_or_zero_of_beq hv with rfl | ⟨s, t, rfl, rfl⟩
  · exact hw
  · rcases eq_or_zero_of_beq hw with rfl | ⟨_, t', -, rfl⟩
    · exact zero_beq_zero t s
    · exact zero_beq_zero t t'

theorem isZero_congr {v w : Binary64} (h : (v == w) = true) : v.isZero = w.isZero := by
  rcases eq_or_zero_of_beq h with rfl | ⟨s, t, rfl, rfl⟩
  · rfl
  · rfl

theorem toInt?_zero (s : Bool) : (zero s).toInt? = some 0 := by
  unfold zero toInt?
  dsimp only
  rw [if_neg (by decide), if_pos (Nat.zero_mod _), Nat.zero_div, Int.natCast_zero, Int.mul_zero]

/-- The text of a zero does not show its sign. -/
theorem numberChars_zero (s : Bool) : (zero s).numberChars = ['0'] := by
  unfold numberChars
  rw [toInt?_zero]
  rfl

theorem numberChars_congr {v w : Binary64} (h : (v == w) = true) :
    v.numberChars = w.numberChars := by
  rcases eq_or_zero_of_beq h with rfl | ⟨s, t, rfl, rfl⟩
  · rfl
  · rw [numberChars_zero, numberChars_zero]

end Binary64

/-! ### What is equal to a third is equal -/

theorem forall₂_of_common {α : Type} [BEq α]
    (h : ∀ x y z : α, (x == y) = true → (x == z) = true → (y == z) = true) {xs ys zs : List α}
    (hys : List.Forall₂ (fun x y => (x == y) = true) xs ys)
    (hzs : List.Forall₂ (fun x z => (x == z) = true) xs zs) :
    List.Forall₂ (fun y z => (y == z) = true) ys zs := by
  induction hys generalizing zs with
  | nil =>
    rw [List.forall₂_nil_left_iff.1 hzs]
    exact .nil
  | cons hxy _ ih =>
    obtain ⟨z, zs', hxz, hzs', rfl⟩ := List.forall₂_cons_left_iff.1 hzs
    exact .cons (h _ _ _ hxy hxz) (ih hzs')

theorem Coordinate.beq_of_common {a c d : Coordinate} (hc : (a == c) = true)
    (hd : (a == d) = true) : (c == d) = true := by
  obtain ⟨hx, hy, hz⟩ := Coordinate.beq_iff.1 hc
  obtain ⟨hx', hy', hz'⟩ := Coordinate.beq_iff.1 hd
  exact Coordinate.beq_iff.2 ⟨Binary64.beq_of_common hx hx', Binary64.beq_of_common hy hy',
    Binary64.beq_of_common hz hz'⟩

theorem waypoint_beq_of_common {u v w : Option Coordinate} (hv : (u == v) = true)
    (hw : (u == w) = true) : (v == w) = true := by
  cases u with
  | none =>
    cases v with
    | none => exact hw
    | some c => nomatch hv
  | some a =>
    cases v with
    | none => nomatch hv
    | some c =>
      cases w with
      | none => nomatch hw
      | some d => exact Coordinate.beq_of_common (a := a) hv hw

theorem Beat.beq_of_common {a b b' : Beat} (hb : (a == b) = true) (hb' : (a == b') = true) :
    (b == b') = true := by
  obtain ⟨hws, hk⟩ := Beat.beq_iff.1 hb
  obtain ⟨hws', hk'⟩ := Beat.beq_iff.1 hb'
  exact Beat.beq_iff.2
    ⟨forall₂_of_common (fun _ _ _ => waypoint_beq_of_common) hws hws', hk.symm.trans hk'⟩

theorem Segment.beq_of_common {a g g' : Segment} (hg : (a == g) = true) (hg' : (a == g') = true) :
    (g == g') = true :=
  Segment.beq_iff.2 (forall₂_of_common (fun _ _ _ => Beat.beq_of_common) (Segment.beq_iff.1 hg)
    (Segment.beq_iff.1 hg'))

theorem Pattern.beq_of_common {r p q : Pattern} (hp : (r == p) = true) (hq : (r == q) = true) :
    (p == q) = true :=
  Pattern.beq_iff.2 (forall₂_of_common (fun _ _ _ => Segment.beq_of_common) (Pattern.beq_iff.1 hp)
    (Pattern.beq_iff.1 hq))

/-! ### Equal patterns are written alike -/

theorem Coordinate.groupInside_congr {c d : Coordinate} (h : (c == d) = true) :
    c.groupInside = d.groupInside := by
  obtain ⟨hx, hy, hz⟩ := Coordinate.beq_iff.1 h
  unfold Coordinate.groupInside Coordinate.groupValues
  rw [Binary64.isZero_congr hy, Binary64.isZero_congr hz]
  split_ifs
  · simp only [List.map_cons, List.map_nil, Binary64.numberChars_congr hx,
      Binary64.numberChars_congr hy, Binary64.numberChars_congr hz]
  · simp only [List.map_cons, List.map_nil, Binary64.numberChars_congr hx,
      Binary64.numberChars_congr hz]
  · simp only [List.map_cons, List.map_nil, Binary64.numberChars_congr hx]

theorem waypointText_congr {v w : Option Coordinate} (h : (v == w) = true) :
    waypointText v = waypointText w := by
  cases v with
  | none =>
    cases w with
    | none => rfl
    | some d => nomatch h
  | some c =>
    cases w with
    | none => nomatch h
    | some d =>
      have hcd : (c == d) = true := h
      show '(' :: c.groupInside ++ [')'] = '(' :: d.groupInside ++ [')']
      rw [Coordinate.groupInside_congr hcd]

theorem Beat.waypointChars_congr {ws ws' : List (Option Coordinate)}
    (h : List.Forall₂ (fun w w' => (w == w') = true) ws ws') (k : Int) :
    ∀ i, Beat.waypointChars k i ws = Beat.waypointChars k i ws' := by
  induction h with
  | nil =>
    intro i
    rfl
  | @cons w w' ws ws' hw hws ih =>
    intro i
    have hnil : ws = [] ↔ ws' = [] := by
      rw [← List.length_eq_zero_iff, hws.length_eq, List.length_eq_zero_iff]
    rw [waypointChars_cons, waypointChars_cons, waypointText_congr hw, ih]
    simp only [ne_eq, hnil]

theorem Beat.canonicalChars_congr {b b' : Beat} (h : (b == b') = true) :
    b.canonicalChars = b'.canonicalChars := by
  obtain ⟨hws, hk⟩ := Beat.beq_iff.1 h
  unfold Beat.canonicalChars
  rw [hk, Beat.waypointChars_congr hws]

theorem map_congr_of_beq {α β : Type} [BEq α] {f : α → β}
    (hf : ∀ x y : α, (x == y) = true → f x = f y) {xs ys : List α}
    (h : List.Forall₂ (fun x y => (x == y) = true) xs ys) : xs.map f = ys.map f := by
  induction h with
  | nil => rfl
  | cons hxy _ ih => rw [List.map_cons, List.map_cons, hf _ _ hxy, ih]

theorem Segment.canonicalChars_congr {g g' : Segment} (h : (g == g') = true) :
    g.canonicalChars = g'.canonicalChars := by
  have hbs := Segment.beq_iff.1 h
  have hmap := map_congr_of_beq (fun _ _ => Beat.canonicalChars_congr) hbs
  have hempty : g.beats.isEmpty = g'.beats.isEmpty := by
    rw [Bool.eq_iff_iff, List.isEmpty_iff_length_eq_zero, List.isEmpty_iff_length_eq_zero,
      hbs.length_eq]
  unfold Segment.canonicalChars
  rw [hempty, List.flatMap_def, List.flatMap_def, hmap]

/-- Equal patterns have the same canonical text. -/
theorem Pattern.canonical_congr {p q : Pattern} (h : (p == q) = true) :
    p.canonical = q.canonical := by
  unfold Pattern.canonical Pattern.canonicalChars
  rw [map_congr_of_beq (fun _ _ => Segment.canonicalChars_congr) (Pattern.beq_iff.1 h)]

/-- Well-formed patterns with the same canonical text are equal: it compiles to one pattern, which
is equal to both. -/
theorem beq_of_canonical_eq {p q : Pattern} (hp : p.WellFormed) (hq : q.WellFormed)
    (h : p.canonical = q.canonical) : (p == q) = true := by
  obtain ⟨r, hr, hrp⟩ := exists_ofNotation_canonical hp
  obtain ⟨r', hr', hrq⟩ := exists_ofNotation_canonical hq
  rw [← h, hr] at hr'
  cases hr'
  exact Pattern.beq_of_common hrp hrq

/-- **Canonical texts tell patterns apart.**  Patterns that texts compile to have the same canonical
text exactly if they are equal, and compiling a canonical text and writing it again gives the same
text. -/
theorem Pattern.canonical_eq_canonical_iff {a b : String} {p q : Pattern}
    (hp : Pattern.ofNotation a = .ok p) (hq : Pattern.ofNotation b = .ok q) :
    (p.canonical = q.canonical ↔ (p == q) = true) ∧
      ∃ r, Pattern.ofNotation p.canonical = .ok r ∧ r.canonical = p.canonical := by
  have hwell := wellFormed_of_ofNotation hp
  refine ⟨⟨?_, Pattern.canonical_congr⟩, ?_⟩
  · exact beq_of_canonical_eq hwell (wellFormed_of_ofNotation hq)
  · obtain ⟨r, hr, hrp⟩ := exists_ofNotation_canonical hwell
    exact ⟨r, hr, Pattern.canonical_congr hrp⟩

/-- Zeros of either sign have the same text. -/
theorem canonical_of_signed_zeros : ∃ p q, Pattern.ofNotation "(0)-(-0.0)." = .ok p ∧
    Pattern.ofNotation "t(-0)-c(0,0,-0) . T" = .ok q ∧ p.canonical = q.canonical := by
  have hp : Pattern.ofNotation "(0)-(-0.0)." = .ok _ := rfl
  have hq : Pattern.ofNotation "t(-0)-c(0,0,-0) . T" = .ok _ := rfl
  exact ⟨_, _, hp, hq, (Pattern.canonical_eq_canonical_iff hp hq).1.2 rfl⟩

end HandPath
