import HandPath.Pattern.Canonical
import HandPath.Proofs.WellFormed
import HandPath.Proofs.Written

/-!
# HandPath.Proofs.Canonical — the canonical text compiles to its pattern

The text of each part of a well-formed pattern denotes an equal part: the group of a finite
coordinate (`exists_groupText`), the waypoints of a beat with the catch mark among them
(`exists_beatText`), the beats of a segment (`exists_segmentText`).  No character of them is taken
away or parts segments, so the segment texts are found again (`segmentTexts_canonicalChars`).

Main statement (`ofNotation_canonical_iff`): the canonical text of a pattern compiles to an equal
pattern exactly if the pattern is well-formed.
-/

namespace HandPath

open Notation Decimal Text

/-! ### Groups -/

theorem Binary64.zero_beq_of_isZero {v : Binary64} (h : v.isZero = true) :
    (zero false == v) = true := by
  cases v with
  | nan => nomatch h
  | infinity _ => nomatch h
  | finite s m e =>
    change (m == 0) = true at h
    show (0 == m && _) = true
    rw [beq_iff_eq] at h
    subst h
    rfl

theorem ne_nil_of_numeralText {cs : List Char} {d : Decimal} (h : NumeralText cs d) : cs ≠ [] := by
  rintro rfl
  have hnone : ofNumeral? [] = none := by decide
  rw [ofNumeral?_eq_some_iff.2 h] at hnone
  nomatch hnone

theorem isInformationSeparator_of_isPlain {c : Char} (h : isPlain c = true) :
    isInformationSeparator c = false := by
  -- All separators are below `+`, the lowest of these characters.
  have hlow : 0x2B ≤ c.toNat := by
    simp only [isPlain, Bool.or_eq_true, decide_eq_true_eq] at h
    rcases h with (((h | rfl) | rfl) | rfl) | rfl
    · have hdigit : 0x30 ≤ c.toNat := (Char.isDigit_iff_toNat.1 h).1
      omega
    · decide
    · decide
    · decide
    · decide
  by_contra hsep
  obtain ⟨r, hr, -, hhigh⟩ := inRanges_iff.1 (Bool.not_eq_false _ ▸ hsep)
  obtain rfl : r = (0x1C, 0x1F) := List.mem_singleton.1 hr
  dsimp only at hhigh
  omega

/-- A finite number is written as a component that denotes a number equal to it. -/
theorem exists_componentText {v : Binary64} (hv : v.isFinite = true) :
    ∃ v', ComponentText v.numberChars v' ∧ (v' == v) = true := by
  obtain ⟨d, hd, heq⟩ := Binary64.exists_numeralText_numberChars hv
  have hplain := plain_numberChars hv
  refine ⟨d.toBinary64, ⟨d, hd, fun c hc => ?_, rfl, ?_⟩, heq⟩
  · exact isInformationSeparator_of_isPlain (hplain c hc)
  · exact Binary64.isFinite_of_beq (Binary64.beq_symm heq) hv

theorem length_groupValues_le (c : Coordinate) : c.groupValues.length ≤ 3 := by
  unfold Coordinate.groupValues
  split_ifs
  · rfl
  · exact Nat.le_succ 2
  · exact Nat.le_of_ble_eq_true rfl

theorem isFinite_of_mem_groupValues {c : Coordinate} (hc : c.isFinite = true) :
    ∀ v ∈ c.groupValues, v.isFinite = true := by
  obtain ⟨hx, hy, hz⟩ := Coordinate.isFinite_iff.1 hc
  unfold Coordinate.groupValues
  split_ifs
  · simp [hx, hy, hz]
  · simp [hx, hz]
  · simp [hx]

theorem components_groupInside {c : Coordinate} (hc : c.isFinite = true) :
    components c.groupInside = c.groupValues.map Binary64.numberChars := by
  have hpieces : pieces (· = ',') c.groupInside = c.groupValues.map Binary64.numberChars := by
    -- Each number is not empty and holds no comma, so that cutting undoes joining.
    refine pieces_intercalate (by decide) fun w hw => ?_
    obtain ⟨v, hv, rfl⟩ := List.mem_map.1 hw
    have hfin := isFinite_of_mem_groupValues hc v hv
    obtain ⟨d, hd, -⟩ := Binary64.exists_numeralText_numberChars hfin
    refine ⟨ne_nil_of_numeralText hd, fun c hc => ?_⟩
    have hplain := plain_numberChars hfin c hc
    by_contra hcomma
    obtain rfl : c = ',' := by simpa using hcomma
    exact absurd hplain (by decide)
  rw [components, hpieces, List.take_of_length_le]
  rw [List.length_map]
  exact length_groupValues_le c

/-- The group of a finite coordinate denotes a coordinate equal to it. -/
theorem exists_groupText {c : Coordinate} (hc : c.isFinite = true) :
    ∃ c', GroupText c.groupInside c' ∧ (c' == c) = true := by
  have hcomponents := components_groupInside hc
  have hfin := isFinite_of_mem_groupValues hc
  unfold Coordinate.groupValues at hcomponents hfin
  unfold GroupText
  rw [hcomponents]
  -- The components written are the fewest that suffice; all others are zero.
  by_cases hy : (!c.y.isZero) = true
  · rw [if_pos hy] at hfin ⊢
    obtain ⟨x, hx, hxx⟩ := exists_componentText (hfin c.x (by simp))
    obtain ⟨z, hz, hzz⟩ := exists_componentText (hfin c.z (by simp))
    obtain ⟨y, hy, hyy⟩ := exists_componentText (hfin c.y (by simp))
    exact ⟨_, ⟨[x, z, y], .cons hx (.cons hz (.cons hy .nil)), List.cons_ne_nil _ _, rfl⟩,
      Coordinate.beq_iff.2 ⟨hxx, hyy, hzz⟩⟩
  rw [if_neg hy] at hfin ⊢
  have hyzero := Binary64.zero_beq_of_isZero (v := c.y) (by simpa using hy)
  by_cases hz : (!c.z.isZero) = true
  · rw [if_pos hz] at hfin ⊢
    obtain ⟨x, hx, hxx⟩ := exists_componentText (hfin c.x (by simp))
    obtain ⟨z, hz, hzz⟩ := exists_componentText (hfin c.z (by simp))
    exact ⟨_, ⟨[x, z], .cons hx (.cons hz .nil), List.cons_ne_nil _ _, rfl⟩,
      Coordinate.beq_iff.2 ⟨hxx, hyzero, hzz⟩⟩
  · rw [if_neg hz] at hfin ⊢
    have hzzero := Binary64.zero_beq_of_isZero (v := c.z) (by simpa using hz)
    obtain ⟨x, hx, hxx⟩ := exists_componentText (hfin c.x (by simp))
    exact ⟨_, ⟨[x], .cons hx .nil, List.cons_ne_nil _ _, rfl⟩,
      Coordinate.beq_iff.2 ⟨hxx, hyzero, hzzero⟩⟩

/-! ### The characters of canonical texts -/

/-- The characters of canonical texts, apart from spaces and bars. -/
def isCanonical (c : Char) : Bool :=
  isPlain c || c = '(' || c = ')' || c = ',' || c = 'T' || c = 'C'

theorem isCanonical_of_isPlain {c : Char} (h : isPlain c = true) : isCanonical c = true := by
  rw [isCanonical, h]
  rfl

/-- The text of a waypoint. -/
def waypointText : Option Coordinate → List Char
  | some c => c.groupChars
  | none => ['-']

theorem isPlain_of_mem_groupInside {c : Coordinate} (hc : c.isFinite = true) {d : Char}
    (hd : d ∈ c.groupInside) : d = ',' ∨ isPlain d = true := by
  rcases mem_intercalate hd with h | ⟨w, hw, hd⟩
  · exact .inl (List.mem_singleton.1 h)
  · obtain ⟨v, hv, rfl⟩ := List.mem_map.1 hw
    exact .inr (plain_numberChars (isFinite_of_mem_groupValues hc v hv) d hd)

theorem isCanonical_waypointText {w : Option Coordinate}
    (hw : ∀ c, w = some c → c.isFinite = true) : ∀ d ∈ waypointText w, isCanonical d = true := by
  intro d hd
  cases w with
  | none =>
    obtain rfl : d = '-' := List.mem_singleton.1 hd
    rfl
  | some c =>
    rcases List.mem_append.1 hd with hd | hd
    · rcases List.mem_cons.1 hd with rfl | hd
      · rfl
      · rcases isPlain_of_mem_groupInside (hw c rfl) hd with rfl | h
        · rfl
        · exact isCanonical_of_isPlain h
    · obtain rfl : d = ')' := List.mem_singleton.1 hd
      rfl

theorem waypointChars_cons (k i : Int) (w : Option Coordinate) (ws : List (Option Coordinate)) :
    Beat.waypointChars k i (w :: ws) =
      (if i = k ∧ ws ≠ [] then ['C'] else []) ++ waypointText w ++
        Beat.waypointChars k (i + 1) ws := by
  cases w with
  | none => rfl
  | some c => rfl

theorem isCanonical_waypointChars {k : Int} {ws : List (Option Coordinate)}
    (hws : ∀ c, some c ∈ ws → c.isFinite = true) :
    ∀ i, ∀ d ∈ Beat.waypointChars k i ws, isCanonical d = true := by
  induction ws with
  | nil =>
    intro i d hd
    nomatch hd
  | cons w ws ih =>
    intro i d hd
    rw [waypointChars_cons, List.mem_append, List.mem_append] at hd
    rcases hd with (hd | hd) | hd
    · split_ifs at hd
      · obtain rfl : d = 'C' := List.mem_singleton.1 hd
        rfl
      · nomatch hd
    · exact isCanonical_waypointText (fun c hc => hws c (by simp [hc])) d hd
    · exact ih (fun c hc => hws c (List.mem_cons_of_mem _ hc)) (i + 1) d hd

theorem isCanonical_canonicalChars {b : Beat} (hb : b.WellFormed) :
    ∀ d ∈ b.canonicalChars, isCanonical d = true := by
  intro d hd
  unfold Beat.canonicalChars at hd
  rcases List.mem_append.1 hd with hd | hd
  · rcases List.mem_cons.1 hd with rfl | hd
    · rfl
    · exact isCanonical_waypointChars hb.isFinite 0 d hd
  · obtain rfl : d = '.' := List.mem_singleton.1 hd
    rfl

/-! ### Beats -/

theorem exists_waypointText {w : Option Coordinate} (hw : ∀ c, w = some c → c.isFinite = true) :
    ∃ w', WaypointText (waypointText w) w' ∧ (w' == w) = true := by
  cases w with
  | none => exact ⟨none, .blank, rfl⟩
  | some c =>
    have hc := hw c rfl
    obtain ⟨c', hgroup, hcc'⟩ := exists_groupText hc
    refine ⟨some c', .group (fun hmem => ?_) hgroup, hcc'⟩
    exact absurd (isPlain_of_mem_groupInside hc hmem) (by decide)

theorem exists_waypointsText {ws : List (Option Coordinate)}
    (hws : ∀ c, some c ∈ ws → c.isFinite = true) :
    ∃ ws', WaypointsText (ws.flatMap waypointText) ws' ∧
      List.Forall₂ (fun w' w => (w' == w) = true) ws' ws := by
  induction ws with
  | nil => exact ⟨[], .nil, .nil⟩
  | cons w ws ih =>
    obtain ⟨w', hw', hww'⟩ := exists_waypointText (w := w) fun c hc => hws c (by simp [hc])
    obtain ⟨ws', hws', hrel⟩ := ih fun c hc => hws c (List.mem_cons_of_mem _ hc)
    exact ⟨w' :: ws', .cons hw' hws', .cons hww' hrel⟩

/-- No catch mark is written before the catch, nor before it if it is the last waypoint. -/
theorem waypointChars_of_le {k : Int} {ws : List (Option Coordinate)} :
    ∀ {i : Int}, i + (ws.length : Int) ≤ k + 1 →
      Beat.waypointChars k i ws = ws.flatMap waypointText := by
  induction ws with
  | nil =>
    intro i _
    rfl
  | cons w ws ih =>
    intro i h
    rw [List.length_cons] at h
    have hnone : ¬ (i = k ∧ ws ≠ []) := by
      rintro ⟨rfl, hne⟩
      have hpos := List.length_pos_iff.2 hne
      omega
    rw [waypointChars_cons, if_neg hnone, ih (by omega), List.nil_append, List.flatMap_cons]

/-- No catch mark is written after the catch. -/
theorem waypointChars_of_lt {k : Int} {ws : List (Option Coordinate)} :
    ∀ {i : Int}, k < i → Beat.waypointChars k i ws = ws.flatMap waypointText := by
  induction ws with
  | nil =>
    intro i _
    rfl
  | cons w ws ih =>
    intro i h
    have hnone : ¬ (i = k ∧ ws ≠ []) := fun hk => by omega
    rw [waypointChars_cons, if_neg hnone, ih (by omega), List.nil_append, List.flatMap_cons]

/-- The catch mark stands before the catch, if waypoints follow it. -/
theorem waypointChars_append {k : Int} {vs us : List (Option Coordinate)} (hus : 2 ≤ us.length) :
    ∀ {i : Int}, k = i + (vs.length : Int) → Beat.waypointChars k i (vs ++ us) =
      vs.flatMap waypointText ++ 'C' :: us.flatMap waypointText := by
  -- `i` is the number of the first waypoint, so the catch is met after those of `vs`.
  induction vs with
  | nil =>
    intro i h
    cases us with
    | nil => nomatch hus
    | cons w us =>
      rw [List.length_nil] at h
      rw [List.length_cons] at hus
      have hne : us ≠ [] := List.length_pos_iff.1 (by omega)
      rw [List.nil_append, waypointChars_cons, if_pos ⟨by omega, hne⟩,
        waypointChars_of_lt (by omega)]
      rfl
  | cons v vs ih =>
    intro i h
    rw [List.length_cons] at h
    have hnone : ¬ (i = k ∧ vs ++ us ≠ []) := fun hk => by omega
    rw [List.cons_append, waypointChars_cons, if_neg hnone, ih (by omega), List.nil_append,
      List.flatMap_cons, List.append_assoc]

theorem canonicalChars_of_last {n : Nat} {ws : List (Option Coordinate)}
    (h : n = ws.length - 1) : Beat.canonicalChars ⟨ws, (n : Int)⟩ =
      ['T'] ++ (ws.flatMap waypointText ++ ['.']) := by
  unfold Beat.canonicalChars
  rw [waypointChars_of_le (by dsimp only; omega)]
  rfl

theorem canonicalChars_append {n : Nat} {vs us : List (Option Coordinate)} (h : n = vs.length)
    (hus : 2 ≤ us.length) : Beat.canonicalChars ⟨vs ++ us, (n : Int)⟩ =
      ['T'] ++ (vs.flatMap waypointText ++ 'C' :: (us.flatMap waypointText ++ ['.'])) := by
  unfold Beat.canonicalChars
  rw [waypointChars_append hus (by dsimp only; omega)]
  simp

/-- Where a beat has a coordinate, a beat equal to it has one. -/
theorem exists_coordinate_of_beq {ws ws' : List (Option Coordinate)} {k : Int} {i : Nat}
    (h : (⟨ws', k⟩ == (⟨ws, k⟩ : Beat)) = true)
    (hi : (Beat.coordinate? ⟨ws, k⟩ (i : Int)).isSome = true) : ∃ c, ws'[i]? = some (some c) := by
  rw [← isSome_coordinate?_iff (k := k), Beat.isSome_coordinate?_of_beq h]
  exact hi

/-- The text of a well-formed beat denotes a beat equal to it. -/
theorem exists_beatText {b : Beat} (hb : b.WellFormed) :
    ∃ b', BeatText b.canonicalChars b' ∧ (b' == b) = true := by
  obtain ⟨ws, k⟩ := b
  have htwo : 2 ≤ ws.length := hb.two_le
  have hone : 1 ≤ k := hb.one_le_catchIndex
  have hlt : k < (ws.length : Int) := hb.catchIndex_lt
  obtain ⟨n, rfl⟩ := Int.eq_ofNat_of_zero_le (by omega : 0 ≤ k)
  -- The catch mark is written unless the catch is the last waypoint.
  by_cases hlast : n = ws.length - 1
  · obtain ⟨ws', hws', hrel⟩ := exists_waypointsText hb.isFinite
    have heq : (⟨ws', n⟩ == (⟨ws, n⟩ : Beat)) = true := Beat.beq_iff.2 ⟨hrel, rfl⟩
    have h0 := exists_coordinate_of_beq (i := 0) heq hb.throw_isSome
    have hn := exists_coordinate_of_beq (i := n) heq hb.catch_isSome
    have hindex : n = ws'.length - 1 := hrel.length_eq.symm ▸ hlast
    rw [canonicalChars_of_last hlast]
    refine ⟨⟨ws', n⟩, ?_, heq⟩
    rw [hindex] at hn ⊢
    exact .unmarked .capital hws' (hrel.length_eq.symm ▸ htwo) h0 hn
  · obtain ⟨vs, us, rfl, hvs, hus⟩ : ∃ vs us, ws = vs ++ us ∧ n = vs.length ∧ 2 ≤ us.length := by
      refine ⟨ws.take n, ws.drop n, (List.take_append_drop n ws).symm, ?_, ?_⟩
      · rw [List.length_take]
        omega
      · rw [List.length_drop]
        omega
    obtain ⟨vs', hvs', hrelv⟩ := exists_waypointsText fun c hc =>
      hb.isFinite c (List.mem_append_left _ hc)
    obtain ⟨us', hus', hrelu⟩ := exists_waypointsText fun c hc =>
      hb.isFinite c (List.mem_append_right _ hc)
    have hrel := List.rel_append hrelv hrelu
    have heq : (⟨vs' ++ us', n⟩ == (⟨vs ++ us, n⟩ : Beat)) = true := Beat.beq_iff.2 ⟨hrel, rfl⟩
    have h0 := exists_coordinate_of_beq (i := 0) heq hb.throw_isSome
    have hn := exists_coordinate_of_beq (i := n) heq hb.catch_isSome
    have hindex : n = vs'.length := hrelv.length_eq.symm ▸ hvs
    rw [canonicalChars_append hvs hus]
    refine ⟨⟨vs' ++ us', n⟩, ?_, heq⟩
    rw [hindex] at hn hone ⊢
    exact .marked .capital (.inl rfl) hvs' hus' (by omega) (hrel.length_eq.symm ▸ htwo) h0 hn

/-! ### Segments and patterns -/

/-- The texts of well-formed beats, one after the other, denote beats equal to them. -/
theorem exists_segmentText {bs : List Beat} (hbs : ∀ b ∈ bs, b.WellFormed) :
    ∃ bs', SegmentText (bs.flatMap Beat.canonicalChars) bs' ∧
      List.Forall₂ (fun b' b => (b' == b) = true) bs' bs := by
  induction bs with
  | nil => exact ⟨[], .trailing .absent, .nil⟩
  | cons b bs ih =>
    obtain ⟨hb, hbs⟩ := List.forall_mem_cons.1 hbs
    obtain ⟨b', hb', hbb'⟩ := exists_beatText hb
    obtain ⟨bs', hbs', hrel⟩ := ih hbs
    exact ⟨b' :: bs', .beat hb' hbs', .cons hbb' hrel⟩

theorem isCanonical_flatMap {bs : List Beat} (hbs : ∀ b ∈ bs, b.WellFormed) :
    ∀ d ∈ bs.flatMap Beat.canonicalChars, isCanonical d = true := by
  intro d hd
  obtain ⟨b, hb, hd⟩ := List.mem_flatMap.1 hd
  exact isCanonical_canonicalChars (hbs b hb) d hd

/-- The text of a segment compiles to a segment equal to it; a segment without beats is written as a
space, which counts for nothing. -/
theorem exists_segment {g : Segment} (hg : ∀ b ∈ g.beats, b.WellFormed) :
    ∃ g' : Segment, SegmentText (withoutSpaces g.canonicalChars) g'.beats ∧ (g' == g) = true := by
  obtain ⟨bs⟩ := g
  unfold Segment.canonicalChars
  cases bs with
  | nil => exact ⟨⟨[]⟩, .trailing .absent, rfl⟩
  | cons b bs =>
    obtain ⟨bs', hbs', hrel⟩ := exists_segmentText hg
    have hspace : ' ' ∉ (b :: bs).flatMap Beat.canonicalChars := fun hmem =>
      absurd (isCanonical_flatMap hg _ hmem) (by decide)
    refine ⟨⟨bs'⟩, ?_, Segment.beq_iff.2 hrel⟩
    rw [if_neg (by simp), withoutSpaces_of_not_mem hspace]
    exact hbs'

theorem mem_segment_canonicalChars {g : Segment} (hg : ∀ b ∈ g.beats, b.WellFormed) {d : Char}
    (hd : d ∈ g.canonicalChars) : d = ' ' ∨ isCanonical d = true := by
  unfold Segment.canonicalChars at hd
  split_ifs at hd
  · exact .inl (List.mem_singleton.1 hd)
  · exact .inr (isCanonical_flatMap hg d hd)

theorem segment_canonicalChars_ne_nil (g : Segment) : g.canonicalChars ≠ [] := by
  obtain ⟨bs⟩ := g
  cases bs with
  | nil => exact List.cons_ne_nil _ _
  | cons b bs => exact List.cons_ne_nil _ _

theorem isDelimiter_of_isCanonical {d : Char} (hd : d = ' ' ∨ isCanonical d = true) :
    isDelimiter d = false := by
  by_contra h
  simp only [isDelimiter, Bool.not_eq_false, Bool.or_eq_true, decide_eq_true_eq] at h
  rcases h with rfl | rfl
  · exact absurd hd (by decide)
  · exact absurd hd (by decide)

theorem isDecoration_of_isCanonical {d : Char} (hd : d = ' ' ∨ isCanonical d = true) :
    isDecoration d = false := by
  by_contra h
  simp only [isDecoration, Bool.not_eq_false, Bool.or_eq_true, decide_eq_true_eq] at h
  rcases h with ((rfl | rfl) | rfl) | rfl
  all_goals exact absurd hd (by decide)

/-- The segment texts of a canonical text are the texts of the segments. -/
theorem segmentTexts_canonicalChars {p : Pattern} (hp : p.WellFormed) :
    segmentTexts p.canonicalChars = p.segments.map Segment.canonicalChars := by
  refine segmentTexts_intercalate fun w hw => ?_
  obtain ⟨g, hg, rfl⟩ := List.mem_map.1 hw
  refine ⟨segment_canonicalChars_ne_nil g, fun d hd => ?_⟩
  have hmem := mem_segment_canonicalChars (hp.beats g hg) hd
  exact ⟨isDelimiter_of_isCanonical hmem, isDecoration_of_isCanonical hmem⟩

/-- Well-formed segments compile, one by one, to equal segments. -/
theorem exists_segments {gs : List Segment} (hgs : ∀ g ∈ gs, ∀ b ∈ g.beats, b.WellFormed) :
    ∃ gs' : List Segment, List.Forall₂
        (fun cs g => SegmentText (withoutSpaces cs) g.beats) (gs.map Segment.canonicalChars) gs' ∧
      List.Forall₂ (fun g' g => (g' == g) = true) gs' gs := by
  induction gs with
  | nil => exact ⟨[], .nil, .nil⟩
  | cons g gs ih =>
    obtain ⟨hg, hgs⟩ := List.forall_mem_cons.1 hgs
    obtain ⟨g', hg', hgg'⟩ := exists_segment hg
    obtain ⟨gs', hgs', hrel⟩ := ih hgs
    exact ⟨g' :: gs', .cons hg' hgs', .cons hgg' hrel⟩

theorem exists_ofNotation_canonical {p : Pattern} (hp : p.WellFormed) :
    ∃ q, Pattern.ofNotation p.canonical = .ok q ∧ (q == p) = true := by
  obtain ⟨gs, hgs, hrel⟩ := exists_segments hp.beats
  refine ⟨⟨gs⟩, ofNotation_eq_ok_iff_segments.2 ?_, Pattern.beq_iff.2 hrel⟩
  rw [Pattern.canonical, String.toList_ofList, segmentTexts_canonicalChars hp]
  refine ⟨?_, hgs⟩
  rw [Ne, List.map_eq_nil_iff]
  exact hp.segments_ne_nil

/-- **Writing and compiling.**  The canonical text of a pattern compiles to a pattern equal to it
exactly if the pattern is well-formed. -/
theorem Pattern.ofNotation_canonical_iff (p : Pattern) :
    (∃ q, Pattern.ofNotation p.canonical = .ok q ∧ (q == p) = true) ↔ p.WellFormed := by
  refine ⟨?_, ?_⟩
  · rintro ⟨q, hq, heq⟩
    exact (wellFormed_of_ofNotation hq).of_beq heq
  · exact exists_ofNotation_canonical

end HandPath
