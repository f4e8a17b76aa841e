import HandPath.Proofs.Grammar

/-!
# HandPath.Proofs.WellFormed — compiled patterns are well-formed, and so are their equals

A text compiles to a pattern exactly if it has a segment and the texts of its segments denote those
of the pattern (`ofNotation_eq_ok_iff_segments`); the grammar leaves no way to denote a pattern that
is not well-formed (`wellFormed_of_ofNotation`).  Equality of patterns compares the values of
coordinates, where numbers of the same value are the same or are both zero
(`Binary64.eq_or_zero_of_beq`), so it keeps all that well-formedness demands
(`Pattern.WellFormed.of_beq`).
-/

namespace HandPath

open Notation Traversal

/-! ### Equality of numbers -/

namespace Binary64

/-- Numbers of the same value are the same, or are both zero. -/
theorem eq_or_zero_of_beq {v w : Binary64} (h : (v == w) = true) :
    v = w ∨ ∃ s t, v = zero s ∧ w = zero t := by
  cases v with
  | nan => nomatch h
  | infinity s =>
    cases w with
    | nan => nomatch h
    | finite => nomatch h
    | infinity t =>
      change (s == t) = true at h
      exact .inl (congrArg infinity (beq_iff_eq.1 h))
  | finite s m e hm =>
    cases w with
    | nan => nomatch h
    | infinity t => nomatch h
    | finite t n f hn =>
      change (m == n && (m == 0 || (s == t && e == f))) = true at h
      simp only [Bool.and_eq_true, Bool.or_eq_true, beq_iff_eq] at h
      obtain ⟨rfl, rfl | ⟨rfl, rfl⟩⟩ := h
      · -- the normal form of zero has the least exponent
        obtain rfl : e = -1074 := hm.2.2.2.resolve_left (by decide)
        obtain rfl : f = -1074 := hn.2.2.2.resolve_left (by decide)
        exact .inr ⟨s, t, rfl, rfl⟩
      · exact .inl rfl

theorem zero_beq_zero (s t : Bool) : (zero s == zero t) = true := rfl

theorem beq_symm {v w : Binary64} (h : (v == w) = true) : (w == v) = true := by
  rcases eq_or_zero_of_beq h with rfl | ⟨s, t, rfl, rfl⟩
  · exact h
  · exact zero_beq_zero t s

end Binary64

/-! ### Equality by parts -/

theorem beq_iff_forall₂ {α : Type} [BEq α] {xs ys : List α} :
    (xs == ys) = true ↔ List.Forall₂ (fun x y => (x == y) = true) xs ys := by
  induction xs generalizing ys with
  | nil =>
    rw [List.forall₂_nil_left_iff, List.nil_beq_eq, List.isEmpty_iff]
  | cons x xs ih =>
    cases ys with
    | nil => simp
    | cons y ys => rw [List.cons_beq_cons, Bool.and_eq_true, List.forall₂_cons, ih]

theorem Coordinate.beq_iff {c d : Coordinate} : (c == d) = true ↔
    (c.x == d.x) = true ∧ (c.y == d.y) = true ∧ (c.z == d.z) = true := by
  show ((c.x == d.x) && ((c.y == d.y) && (c.z == d.z))) = true ↔ _
  rw [Bool.and_eq_true, Bool.and_eq_true]

theorem Beat.beq_iff {b b' : Beat} : (b == b') = true ↔
    List.Forall₂ (fun w w' => (w == w') = true) b.waypoints b'.waypoints ∧
      b.catchIndex = b'.catchIndex := by
  show ((b.waypoints == b'.waypoints) && (b.catchIndex == b'.catchIndex)) = true ↔ _
  rw [Bool.and_eq_true, beq_iff_forall₂, beq_iff_eq]

theorem Segment.beq_iff {g g' : Segment} : (g == g') = true ↔
    List.Forall₂ (fun b b' => (b == b') = true) g.beats g'.beats := by
  show (g.beats == g'.beats) = true ↔ _
  rw [beq_iff_forall₂]

theorem Pattern.beq_iff {p p' : Pattern} : (p == p') = true ↔
    List.Forall₂ (fun g g' => (g == g') = true) p.segments p'.segments := by
  show (p.segments == p'.segments) = true ↔ _
  rw [beq_iff_forall₂]

/-! ### What equality keeps -/

theorem Binary64.isFinite_of_beq {v w : Binary64} (h : (v == w) = true) (hv : v.isFinite = true) :
    w.isFinite = true := by
  rcases Binary64.eq_or_zero_of_beq h with rfl | ⟨s, t, rfl, rfl⟩
  · exact hv
  · rfl

theorem Coordinate.isFinite_iff {c : Coordinate} : c.isFinite = true ↔
    c.x.isFinite = true ∧ c.y.isFinite = true ∧ c.z.isFinite = true := by
  rw [Coordinate.isFinite, Bool.and_eq_true, Bool.and_eq_true, and_assoc]

theorem Coordinate.isFinite_of_beq {c d : Coordinate} (h : (c == d) = true)
    (hc : c.isFinite = true) : d.isFinite = true := by
  obtain ⟨hx, hy, hz⟩ := Coordinate.beq_iff.1 h
  obtain ⟨hcx, hcy, hcz⟩ := Coordinate.isFinite_iff.1 hc
  exact Coordinate.isFinite_iff.2 ⟨Binary64.isFinite_of_beq hx hcx, Binary64.isFinite_of_beq hy hcy,
    Binary64.isFinite_of_beq hz hcz⟩

theorem Beat.isSome_coordinate?_of_beq {b b' : Beat} (h : (b == b') = true) (i : Int) :
    (b.coordinate? i).isSome = (b'.coordinate? i).isSome := by
  obtain ⟨hws, -⟩ := Beat.beq_iff.1 h
  unfold Beat.coordinate?
  by_cases hi : i < 0
  · rw [if_pos hi, if_pos hi]
  rw [if_neg hi, if_neg hi]
  generalize i.toNat = n
  generalize b.waypoints = ws at hws
  generalize b'.waypoints = ws' at hws
  -- Equal waypoints are both left open or both coordinates.
  induction hws generalizing n with
  | nil => rfl
  | @cons w w' ws ws' hw _ ih =>
    cases n with
    | succ n => exact ih n
    | zero =>
      cases w with
      | none =>
        cases w' with
        | none => rfl
        | some c' => nomatch hw
      | some c =>
        cases w' with
        | none => nomatch hw
        | some c' => rfl

theorem Beat.isFinite_of_beq {b b' : Beat} (h : (b == b') = true)
    (hb : ∀ c, some c ∈ b.waypoints → c.isFinite = true) :
    ∀ c, some c ∈ b'.waypoints → c.isFinite = true := by
  obtain ⟨hws, -⟩ := Beat.beq_iff.1 h
  generalize b.waypoints = ws at hb hws
  generalize b'.waypoints = ws' at hws ⊢
  induction hws with
  | nil => simp
  | @cons w w' ws ws' hw _ ih =>
    intro c hc
    rcases List.mem_cons.1 hc with rfl | hc
    · cases w with
      | none => nomatch hw
      | some c' => exact Coordinate.isFinite_of_beq hw (hb c' List.mem_cons_self)
    · exact ih (fun c' hc' => hb c' (List.mem_cons_of_mem _ hc')) c hc

theorem Beat.WellFormed.of_beq {b b' : Beat} (hb : b.WellFormed) (h : (b == b') = true) :
    b'.WellFormed := by
  obtain ⟨hws, hindex⟩ := Beat.beq_iff.1 h
  have hcount : b'.waypointCount = b.waypointCount := hws.length_eq.symm
  exact {
    two_le := hcount ▸ hb.two_le
    one_le_catchIndex := hindex ▸ hb.one_le_catchIndex
    catchIndex_lt := by rw [← hindex, hcount]; exact hb.catchIndex_lt
    throw_isSome := by
      rw [← Beat.isSome_coordinate?_of_beq h]
      exact hb.throw_isSome
    catch_isSome := by
      rw [← hindex, ← Beat.isSome_coordinate?_of_beq h]
      exact hb.catch_isSome
    isFinite := Beat.isFinite_of_beq h hb.isFinite }

theorem exists_mem_of_forall₂ {α β : Type} {r : α → β → Prop} {xs : List α} {ys : List β}
    (h : List.Forall₂ r xs ys) {y : β} (hy : y ∈ ys) : ∃ x ∈ xs, r x y := by
  induction h with
  | nil => nomatch hy
  | cons hxy _ ih =>
    rcases List.mem_cons.1 hy with rfl | hy
    · exact ⟨_, List.mem_cons_self, hxy⟩
    · obtain ⟨x, hx, hxy⟩ := ih hy
      exact ⟨x, List.mem_cons_of_mem _ hx, hxy⟩

theorem Pattern.WellFormed.of_beq {p p' : Pattern} (hp : p.WellFormed) (h : (p == p') = true) :
    p'.WellFormed := by
  have hgs := Pattern.beq_iff.1 h
  refine ⟨?_, fun g' hg' b' hb' => ?_⟩
  · intro hnil
    rw [hnil, List.forall₂_nil_right_iff] at hgs
    exact hp.segments_ne_nil hgs
  · obtain ⟨g, hg, hgg'⟩ := exists_mem_of_forall₂ hgs hg'
    obtain ⟨b, hb, hbb'⟩ := exists_mem_of_forall₂ (Segment.beq_iff.1 hgg') hb'
    exact (hp.beats g hg b hb).of_beq hbb'

/-! ### What the grammar denotes -/

theorem isFinite_of_waypointsText {cs : List Char} {ws : List (Option Coordinate)}
    (h : WaypointsText cs ws) : ∀ c, some c ∈ ws → c.isFinite = true := by
  induction h with
  | nil => simp
  | cons hw _ ih =>
    intro c hc
    rcases List.mem_cons.1 hc with rfl | hc
    · cases hw with
      | group _ hgroup => exact hgroup.isFinite
    · exact ih c hc

theorem isSome_coordinate?_iff {ws : List (Option Coordinate)} {k : Int} {i : Nat} :
    (Beat.coordinate? ⟨ws, k⟩ (i : Int)).isSome = true ↔ ∃ c, ws[i]? = some (some c) := by
  unfold Beat.coordinate?
  rw [if_neg (by omega), Int.toNat_natCast]
  dsimp only
  rw [Option.isSome_iff_exists]
  simp only [Option.join_eq_some_iff]

theorem wellFormed_of_beatText {cs : List Char} {b : Beat} (h : BeatText cs b) : b.WellFormed := by
  cases h with
  | @unmarked _ _ ws _ hws htwo h0 hk =>
    exact {
      two_le := htwo
      one_le_catchIndex := by dsimp only; omega
      catchIndex_lt := by
        show ((ws.length - 1 : Nat) : Int) < (ws.length : Int)
        omega
      throw_isSome := isSome_coordinate?_iff.2 h0
      catch_isSome := isSome_coordinate?_iff.2 hk
      isFinite := isFinite_of_waypointsText hws }
  | @marked _ _ _ vs ws _ _ _ hvs hws hone htwo h0 hk =>
    have hlt : vs.length < (vs ++ ws).length := by
      obtain ⟨c, hc⟩ := hk
      exact (List.getElem?_eq_some_iff.1 hc).1
    exact {
      two_le := htwo
      one_le_catchIndex := by dsimp only; omega
      catchIndex_lt := by
        show (vs.length : Int) < ((vs ++ ws).length : Int)
        omega
      throw_isSome := isSome_coordinate?_iff.2 h0
      catch_isSome := isSome_coordinate?_iff.2 hk
      isFinite := by
        intro c hc
        rcases List.mem_append.1 hc with hc | hc
        · exact isFinite_of_waypointsText hvs c hc
        · exact isFinite_of_waypointsText hws c hc }

theorem wellFormed_of_segmentText {cs : List Char} {bs : List Beat} (h : SegmentText cs bs) :
    ∀ b ∈ bs, b.WellFormed := by
  induction h with
  | trailing => simp
  | beat hb _ ih => exact List.forall_mem_cons.2 ⟨wellFormed_of_beatText hb, ih⟩

/-! ### Texts -/

theorem runFrom_cons_result (juggler : Int) (text : List Char) (texts : List (List Char)) :
    (runFrom juggler (text :: texts)).result = (do
      let g ← compileSegment juggler text
      let p ← (runFrom (juggler + 1) texts).result
      return ⟨g :: p.segments⟩) := by
  rw [runFrom]
  cases compileSegment juggler text with
  | error f => rfl
  | ok g =>
    show ((runFrom (juggler + 1) texts).cons g).result = _
    obtain ⟨finished, failure⟩ := runFrom (juggler + 1) texts
    cases failure with
    | none => rfl
    | some f => rfl

/-- Segment texts compile exactly if each of them is in the grammar. -/
theorem runFrom_result_eq_ok_iff {texts : List (List Char)} {p : Pattern} :
    ∀ {juggler : Int}, (runFrom juggler texts).result = .ok p ↔
      List.Forall₂ (fun cs g => SegmentText (withoutSpaces cs) g.beats) texts p.segments := by
  induction texts generalizing p with
  | nil =>
    intro juggler
    obtain ⟨gs⟩ := p
    rw [List.forall₂_nil_left_iff]
    show (Except.ok ⟨[]⟩ : Except Failure Pattern) = .ok ⟨gs⟩ ↔ gs = []
    simp [eq_comm]
  | cons text texts ih =>
    intro juggler
    rw [runFrom_cons_result, bind_eq_ok_iff, List.forall₂_cons_left_iff]
    constructor
    · rintro ⟨g, hg, h⟩
      obtain ⟨q, hq, h⟩ := bind_eq_ok_iff.1 h
      cases h
      exact ⟨g, q.segments, segmentText_of_compileSegment hg, ih.1 hq, rfl⟩
    · rintro ⟨g, gs, hg, hgs, hp⟩
      obtain ⟨ps⟩ := p
      cases hp
      exact ⟨g, compileSegment_of_segmentText juggler hg, bind_eq_ok_iff.2 ⟨⟨gs⟩, ih.2 hgs, rfl⟩⟩

theorem ofNotation_of_eq_nil {text : String} (h : segmentTexts text.toList = []) :
    Pattern.ofNotation text = .error (.mistake .emptyNotation none none) := by
  rw [Pattern.ofNotation, run, h]
  rfl

theorem ofNotation_of_ne_nil {text : String} (h : segmentTexts text.toList ≠ []) :
    Pattern.ofNotation text = (runFrom 1 (segmentTexts text.toList)).result := by
  rw [Pattern.ofNotation, run]
  cases hcs : segmentTexts text.toList with
  | nil => exact absurd hcs h
  | cons cs texts => rfl

theorem ofNotation_eq_ok_iff_segments {text : String} {p : Pattern} :
    Pattern.ofNotation text = .ok p ↔ segmentTexts text.toList ≠ [] ∧
      List.Forall₂ (fun cs g => SegmentText (withoutSpaces cs) g.beats)
        (segmentTexts text.toList) p.segments := by
  by_cases hnil : segmentTexts text.toList = []
  · rw [ofNotation_of_eq_nil hnil]
    constructor
    · intro h
      cases h
    · intro h
      exact absurd hnil h.1
  · rw [ofNotation_of_ne_nil hnil, runFrom_result_eq_ok_iff]
    exact ⟨fun h => ⟨hnil, h⟩, And.right⟩

/-- Compiling gives well-formed patterns only. -/
theorem wellFormed_of_ofNotation {text : String} {p : Pattern}
    (h : Pattern.ofNotation text = .ok p) : p.WellFormed := by
  obtain ⟨hne, htexts⟩ := ofNotation_eq_ok_iff_segments.1 h
  refine ⟨?_, fun g hg b hb => ?_⟩
  · intro hnil
    rw [hnil, List.forall₂_nil_right_iff] at htexts
    exact hne htexts
  · obtain ⟨cs, -, hcs⟩ := exists_mem_of_forall₂ htexts hg
    exact wellFormed_of_segmentText hcs b hb

end HandPath
