import HandPath.Proofs.Concatenation

/-!
# HandPath.Proofs.Truncation — the first part of a text that compiles

`groupOpen`, `points` and `pending` say of the characters of a text, without its tokens, whether its
end cuts a group, how many points stand outside groups, and whether a waypoint follows the last of
them.  The scan of the first part of a text that scans to its end finds an open group or the first
of the tokens (`scan_fault_cases`); of these, whole beats denote the first of the beats
(`SegmentTokens.take`), and nothing but a throw mark can stand after them (`Shape.of_append`).

Main statement (`ofNotation_prefix`): the first part of a text that compiles is empty, cuts a group,
cuts a beat between two of its waypoints, or compiles to the first segments and beats.
-/

namespace HandPath.Notation

open Token Traversal

/-! ### The characters outside groups -/

/-- Whether a group is open after the text; the flag tells whether one is open before it. -/
def openAfter : Bool → List Char → Bool
  | inside, [] => inside
  | false, c :: cs => openAfter (c = '(') cs
  | true, c :: cs => openAfter (c ≠ ')') cs

/-- The characters outside groups that are no spaces; of a group its opening parenthesis stays. -/
def outsideFrom : Bool → List Char → List Char
  | _, [] => []
  | false, c :: cs =>
    if c = ' ' then outsideFrom false cs else c :: outsideFrom (c = '(') cs
  | true, c :: cs => outsideFrom (c ≠ ')') cs

/-- The text ends inside a group. -/
def groupOpen (cs : List Char) : Bool := openAfter false cs

/-- The number of points outside groups. -/
def points (cs : List Char) : Nat := (outsideFrom false cs).count '.'

/-- A waypoint follows the last point outside groups. -/
def pending (cs : List Char) : Bool :=
  ((outsideFrom false cs).rtakeWhile (· ≠ '.')).any fun c => c = '-' || c = '('

theorem outsideFrom_append (inside : Bool) (cs ds : List Char) :
    outsideFrom inside (cs ++ ds) =
      outsideFrom inside cs ++ outsideFrom (openAfter inside cs) ds := by
  induction cs generalizing inside with
  | nil => cases inside <;> rfl
  | cons c cs ih =>
    cases inside with
    | true => exact ih _
    | false =>
      rw [List.cons_append, outsideFrom, outsideFrom, openAfter]
      split_ifs with hspace
      · subst hspace
        exact ih false
      · rw [ih, List.cons_append]

theorem openAfter_append (inside : Bool) (cs ds : List Char) :
    openAfter inside (cs ++ ds) = openAfter (openAfter inside cs) ds := by
  induction cs generalizing inside with
  | nil => cases inside <;> rfl
  | cons c cs ih =>
    cases inside with
    | true => exact ih _
    | false => exact ih _

theorem groupOpen_append {cs : List Char} (h : groupOpen cs = false) (ds : List Char) :
    groupOpen (cs ++ ds) = groupOpen ds := by
  unfold groupOpen at h ⊢
  rw [openAfter_append, h]

theorem points_append {cs : List Char} (h : groupOpen cs = false) (ds : List Char) :
    points (cs ++ ds) = points cs + points ds := by
  unfold groupOpen at h
  unfold points
  rw [outsideFrom_append, h, List.count_append]

theorem points_le_append (cs ds : List Char) : points cs ≤ points (cs ++ ds) := by
  unfold points
  rw [outsideFrom_append, List.count_append]
  exact Nat.le_add_right _ _

theorem openAfter_inside {inside : List Char} (h : ')' ∉ inside) (cs : List Char) :
    openAfter true (inside ++ ')' :: cs) = openAfter false cs := by
  induction inside with
  | nil => rfl
  | cons c inside ih =>
    rw [List.mem_cons, not_or] at h
    simpa [openAfter, Ne.symm h.1] using ih h.2

theorem outsideFrom_inside {inside : List Char} (h : ')' ∉ inside) (cs : List Char) :
    outsideFrom true (inside ++ ')' :: cs) = outsideFrom false cs := by
  induction inside with
  | nil => rfl
  | cons c inside ih =>
    rw [List.mem_cons, not_or] at h
    simpa [outsideFrom, Ne.symm h.1] using ih h.2

theorem openAfter_open {cs : List Char} (h : ')' ∉ cs) : openAfter true cs = true := by
  induction cs with
  | nil => rfl
  | cons c cs ih =>
    rw [List.mem_cons, not_or] at h
    simpa [openAfter, Ne.symm h.1] using ih h.2

/-- The first character of the text of a token. -/
def Token.first (t : Token) : Char := t.chars.headD ' '

theorem groupOpen_chars_append {t : Token} (h : t.Closed) (cs : List Char) :
    groupOpen (t.chars ++ cs) = groupOpen cs := by
  cases t with
  | beatEnd => rfl
  | blank => rfl
  | group inside => simpa [Token.chars, groupOpen, openAfter] using openAfter_inside h cs
  | throwMark small => cases small <;> rfl
  | catchMark small => cases small <;> rfl

theorem outsideFrom_chars_append {t : Token} (h : t.Closed) (cs : List Char) :
    outsideFrom false (t.chars ++ cs) = t.first :: outsideFrom false cs := by
  cases t with
  | beatEnd => rfl
  | blank => rfl
  | group inside =>
    simpa [Token.chars, Token.first, outsideFrom] using outsideFrom_inside h cs
  | throwMark small => cases small <;> rfl
  | catchMark small => cases small <;> rfl

/-! ### The scan of the first part of a text -/

/-- The first part of a text that scans to its end is cut inside a group, or between two of the
tokens of the text. -/
theorem scan_fault_cases {cs ds : List Char} (h : (scan (cs ++ ds)).fault = none) :
    (groupOpen cs = true ∧ (scan cs).fault = some .openGroup) ∨
      (groupOpen cs = false ∧ (scan cs).fault = none ∧
        (scan cs).tokens <+: (scan (cs ++ ds)).tokens) := by
  -- Along the scan of `cs`: a group may be open at the cut, a bad character would stop the whole.
  induction cs using text_induction with
  | space cs ih =>
    rw [List.cons_append, scan_space] at h ⊢
    rw [scan_space]
    exact ih h
  | token t cs ht ih =>
    rw [List.append_assoc, scan_chars_append ht] at h ⊢
    rw [scan_chars_append ht, groupOpen_chars_append ht]
    rcases ih h with hopen | ⟨hopen, hfault, htokens⟩
    · exact .inl hopen
    · exact .inr ⟨hopen, hfault, List.prefix_cons_inj t |>.2 htokens⟩
  | stuck cs fault hstuck =>
    rw [scan_stuck hstuck]
    cases hstuck with
    | ended => exact .inr ⟨rfl, rfl, List.nil_prefix⟩
    | openGroup hcs => exact .inl ⟨openAfter_open hcs, rfl⟩
    | badCharacter hc =>
      rw [List.cons_append, scan_stuck (.badCharacter hc)] at h
      nomatch h

/-- A text that scans to its end does so on either side of a place outside groups. -/
theorem fault_eq_none_of_append {cs ds : List Char} (h : (scan (cs ++ ds)).fault = none)
    (hopen : groupOpen cs = false) : (scan cs).fault = none ∧ (scan ds).fault = none := by
  rcases scan_fault_cases h with ⟨hopen', -⟩ | ⟨-, hcs, -⟩
  · rw [hopen] at hopen'
    nomatch hopen'
  · rw [scan_append hcs] at h
    exact ⟨hcs, h⟩

theorem outsideFrom_eq_map {cs : List Char} (h : (scan cs).fault = none) :
    outsideFrom false cs = (scan cs).tokens.map Token.first := by
  induction cs using text_induction with
  | space cs ih => exact ih h
  | token t cs ht ih =>
    rw [scan_chars_append ht] at h ⊢
    rw [outsideFrom_chars_append ht, ih h]
    rfl
  | stuck cs fault hstuck =>
    rw [scan_stuck hstuck] at h ⊢
    cases h
    cases hstuck
    rfl

theorem Token.first_eq_point_iff (t : Token) : t.first = '.' ↔ t = .beatEnd := by
  cases t with
  | beatEnd => simp [Token.first, Token.chars]
  | blank => simp [Token.first, Token.chars]
  | group inside => simp [Token.first, Token.chars]
  | throwMark small => cases small <;> simp [Token.first, Token.chars]
  | catchMark small => cases small <;> simp [Token.first, Token.chars]

theorem Token.isWaypoint_eq (t : Token) :
    t.isWaypoint = (t.first = '-' || t.first = '(') := by
  cases t with
  | beatEnd => rfl
  | blank => rfl
  | group inside => rfl
  | throwMark small => cases small <;> rfl
  | catchMark small => cases small <;> rfl

/-- The points outside groups are the ends among the tokens. -/
theorem points_eq_ends {cs : List Char} (h : (scan cs).fault = none) :
    points cs = ends (scan cs).tokens := by
  unfold points ends
  rw [outsideFrom_eq_map h, List.count, List.countP_map, List.count]
  refine List.countP_congr fun t _ => ?_
  simp [Token.first_eq_point_iff]

theorem pending_eq {cs : List Char} (h : (scan cs).fault = none) :
    pending cs = (currentBeat (scan cs).tokens).any isWaypoint := by
  -- Of the tokens only an end is written with a point, so that both are cut at the same place.
  have hlast : ((scan cs).tokens.map Token.first).rtakeWhile (· ≠ '.') =
      (currentBeat (scan cs).tokens).map Token.first := by
    unfold currentBeat List.rtakeWhile
    rw [← List.map_reverse, List.takeWhile_map, List.map_reverse]
    congr 3
    funext t
    simp [Token.first_eq_point_iff]
  unfold pending
  rw [outsideFrom_eq_map h, hlast, List.any_map]
  congr 1
  funext t
  exact (Token.isWaypoint_eq t).symm

/-! ### The first beats of a segment -/

theorem BeatTokens.beatEnd_not_mem {cur : List Token} {b : Beat} (h : BeatTokens cur b) :
    .beatEnd ∉ cur := by
  obtain ⟨m, hm⟩ := h.shape
  exact hm.beatEnd_not_mem

/-- A segment has one beat for each end. -/
theorem SegmentTokens.ends_eq {ts : List Token} {bs : List Beat} (h : SegmentTokens ts bs) :
    ends ts = bs.length := by
  induction h with
  | trailing ht => exact ends_of_not_mem ht.beatEnd_not_mem
  | beat hb _ ih => rw [ends_append_beatEnd hb.beatEnd_not_mem, ih, List.length_cons]

/-- The first of tokens that keep the rules for marks keep them. -/
theorem Shape.of_append {cur ts : List Token} {m : BeatMarks} (h : Shape (cur ++ ts) m) :
    ∃ m', Shape cur m' := by
  have hend := h.beatEnd_not_mem
  have hrun := (run_start_eq_ok_iff hend).2 h
  rw [run_append] at hrun
  obtain ⟨m', hm', -⟩ := bind_eq_ok_iff.1 hrun
  rw [List.mem_append, not_or] at hend
  exact ⟨m', (run_start_eq_ok_iff hend.1).1 hm'⟩

/-- The first tokens of a beat and what follows it end in the beat, or after it. -/
theorem prefix_beat_cases {us cur ts : List Token} (h : us <+: cur ++ .beatEnd :: ts) :
    us <+: cur ∨ ∃ us', us = cur ++ .beatEnd :: us' ∧ us' <+: ts := by
  obtain ⟨vs, hvs⟩ := h
  rcases List.append_eq_append_iff.1 hvs with ⟨tail, hcur, -⟩ | ⟨us', rfl, htail⟩
  · exact .inl ⟨tail, hcur.symm⟩
  · cases us' with
    | nil => exact .inl ⟨[], by simp⟩
    | cons t us' =>
      obtain ⟨rfl, rfl⟩ := List.cons_eq_cons.1 htail
      exact .inr ⟨us', rfl, vs, rfl⟩

/-- The first tokens of a segment denote its first beats, if no waypoint follows the last end. -/
theorem SegmentTokens.take {ts us : List Token} {bs : List Beat} (h : SegmentTokens ts bs)
    (hus : us <+: ts) (hopen : (currentBeat us).any isWaypoint = false) :
    SegmentTokens us (bs.take (ends us)) := by
  induction h generalizing us with
  | @trailing throw ht =>
    rw [List.take_nil]
    refine .trailing ?_
    rcases ht with rfl | ⟨small, rfl⟩
    · exact .inl (List.prefix_nil.1 hus)
    · rcases List.prefix_cons_iff.1 hus with h | ⟨tail, h, htail⟩
      · exact .inl h
      · rw [List.prefix_nil.1 htail] at h
        exact .inr ⟨small, h⟩
  | @beat cur ts b bs hb _ ih =>
    obtain ⟨m, hshape⟩ := hb.shape
    have hend := hshape.beatEnd_not_mem
    rcases prefix_beat_cases hus with ⟨tail, rfl⟩ | ⟨us', rfl, hus'⟩
    · -- the cut is inside the first beat, which is left out
      rw [List.mem_append, not_or] at hend
      rw [currentBeat_of_not_mem hend.1] at hopen
      obtain ⟨m', hm'⟩ := hshape.of_append
      rw [ends_of_not_mem hend.1, List.take_zero]
      exact .trailing (hm'.optionalThrow hopen)
    · rw [currentBeat_append_beatEnd] at hopen
      rw [ends_append_beatEnd hend, List.take_succ_cons]
      exact .beat hb (ih hus' hopen)

/-! ### The first part of a segment and of a text -/

/-- What comes of the first part of a segment text can be seen from its characters. -/
theorem compileSegment_of_append {juggler : Int} {cs ds : List Char} {g : Segment}
    (h : compileSegment juggler (cs ++ ds) = .ok g) : compileSegment juggler cs =
      if groupOpen cs then .error (.mistake .noParen juggler none)
      else if pending cs then .error (.mistake .badEnding juggler (some (points cs : Int)))
      else .ok ⟨g.beats.take (points cs)⟩ := by
  obtain ⟨hfault, htokens⟩ := compileSegment_eq_ok_iff_tokens.1 h
  rcases scan_fault_cases hfault with ⟨hopen, hscan⟩ | ⟨hopen, hscan, hpre⟩
  · rw [if_pos hopen, compileSegment_of_fault hscan]
    rfl
  · rw [hopen, if_neg Bool.false_ne_true, points_eq_ends hscan, pending_eq hscan]
    by_cases hpending : (currentBeat (scan cs).tokens).any isWaypoint = true
    · rw [if_pos hpending, compileSegment_of_none hscan, if_pos hpending]
    · rw [if_neg hpending]
      rw [Bool.not_eq_true] at hpending
      exact compileSegment_eq_ok_iff_tokens.2 ⟨hscan, htokens.take hpre hpending⟩

/-- There are at most as many points in the first part of a segment text as beats in the segment. -/
theorem points_le_period {juggler : Int} {cs ds : List Char} {g : Segment}
    (h : compileSegment juggler (cs ++ ds) = .ok g) : points cs ≤ g.period := by
  obtain ⟨hfault, htokens⟩ := compileSegment_eq_ok_iff_tokens.1 h
  calc points cs ≤ points (cs ++ ds) := points_le_append cs ds
    _ = ends (scan (cs ++ ds)).tokens := points_eq_ends hfault
    _ = g.period := htokens.ends_eq

/-- The segment texts of the first part of a text are segment texts of the text, but the last of
them may be cut short. -/
theorem segmentTexts_append_cases (cs ds : List Char) :
    segmentTexts cs = [] ∨ ∃ finished last tail rest, segmentTexts cs = finished ++ [last] ∧
      segmentTexts (cs ++ ds) = finished ++ (last ++ tail) :: rest := by
  unfold segmentTexts
  rw [List.filter_append]
  exact Text.pieces_append_cases _ _

/-- A run over texts that compile and one more text. -/
theorem runFrom_concat_result {juggler : Int} {texts : List (List Char)} {gs : List Segment}
    (h : List.Forall₂ (fun cs g => SegmentText (withoutSpaces cs) g.beats) texts gs)
    (cs : List Char) : (runFrom juggler (texts ++ [cs])).result = (do
      let g ← compileSegment (juggler + texts.length) cs
      return ⟨gs ++ [g]⟩) := by
  have hgs : (runFrom juggler texts).result = .ok ⟨gs⟩ := runFrom_result_eq_ok_iff.2 h
  rw [runFrom_append_result, hgs, runFrom_cons_result]
  cases compileSegment (juggler + texts.length) cs with
  | error f => rfl
  | ok g => rfl

end HandPath.Notation

namespace HandPath

open Notation

/-- **Truncated texts.**  The first part of a text that compiles has no segment, or it has `k`
segments of which all but the last are those of the text.  If the cut is inside a group, this is the
fault of the `k`-th segment; else, if a waypoint follows its last point, its ending is.  Otherwise
the first part compiles: to the first `k - 1` segments of the text and as many beats of the `k`-th
as there are points. -/
theorem Pattern.ofNotation_prefix {text first : String} {p : Pattern}
    (h : Pattern.ofNotation text = .ok p) (hfirst : first.toList <+: text.toList) :
    (segmentTexts first.toList = [] →
      Pattern.ofNotation first = .error (.mistake .emptyNotation none none)) ∧
    ∀ finished last, segmentTexts first.toList = finished ++ [last] →
      ∃ g, p.segments[finished.length]? = some g ∧ points last ≤ g.period ∧
        Pattern.ofNotation first =
          if groupOpen last then
            .error (.mistake .noParen (some (finished.length + 1)) none)
          else if pending last then
            .error (.mistake .badEnding (some (finished.length + 1)) (some (points last)))
          else .ok ⟨p.segments.take finished.length ++ [⟨g.beats.take (points last)⟩]⟩ := by
  refine ⟨ofNotation_of_eq_nil, fun finished last hlast => ?_⟩
  obtain ⟨rest, htext⟩ := hfirst
  obtain ⟨-, hsegments⟩ := ofNotation_eq_ok_iff_segments.1 h
  rcases segmentTexts_append_cases first.toList rest with
    hnil | ⟨finished', last', tail, after, hsplit, hwhole⟩
  · rw [hnil] at hlast
    simp at hlast
  obtain ⟨rfl, hlast'⟩ := List.append_inj' (hsplit.symm.trans hlast) rfl
  obtain rfl := List.singleton_inj.1 hlast'
  rw [← htext, hwhole] at hsegments
  obtain ⟨gs, gs', hgs, hgs', hp⟩ := Traversal.forall₂_append_left_iff.1 hsegments
  obtain ⟨g, rest', hg, -, rfl⟩ := List.forall₂_cons_left_iff.1 hgs'
  have hlength : gs.length = finished'.length := hgs.length_eq.symm
  have hcompile := compileSegment_of_segmentText (1 + finished'.length) hg
  have hnumber : (1 : Int) + finished'.length = finished'.length + 1 := Int.add_comm ..
  have hne : segmentTexts first.toList ≠ [] := by simp [hsplit]
  refine ⟨g, ?_, points_le_period hcompile, ?_⟩
  · rw [hp, ← hlength, List.getElem?_append_right (Nat.le_refl _), Nat.sub_self]
    rfl
  · rw [ofNotation_of_ne_nil hne, hsplit, runFrom_concat_result hgs,
      compileSegment_of_append hcompile, hnumber, hp, ← hlength, List.take_left]
    split_ifs <;> rfl

/-- A cut after a throw mark leaves out the beat that the mark begins. -/
theorem ofNotation_prefix_throw : ∃ p g, Pattern.ofNotation "(0)-(0).|(0)(0).t(0)(0)." = .ok p ∧
    "(0)-(0).|(0)(0).t".toList <+: "(0)-(0).|(0)(0).t(0)(0).".toList ∧
    p.segments[1]? = some g ∧
    Pattern.ofNotation "(0)-(0).|(0)(0).t" =
      .ok ⟨p.segments.take 1 ++ [⟨g.beats.take 1⟩]⟩ := by
  have h : Pattern.ofNotation "(0)-(0).|(0)(0).t(0)(0)." = .ok _ := rfl
  have hfirst : "(0)-(0).|(0)(0).t".toList <+: "(0)-(0).|(0)(0).t(0)(0).".toList := by decide
  obtain ⟨g, hg, -, heq⟩ := (Pattern.ofNotation_prefix h hfirst).2
    ["(0)-(0).".toList] "(0)(0).t".toList (by decide)
  exact ⟨_, g, h, hfirst, hg, heq⟩

end HandPath
