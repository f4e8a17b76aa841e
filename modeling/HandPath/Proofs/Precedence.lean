import HandPath.Proofs.Grammar

/-!
# HandPath.Proofs.Precedence — which failure is reported, and where

`SegmentFault juggler cs f` says, of the text `cs` alone, which failure a segment has: the leftmost
lexical fault if there is one; else waypoints after the last end; else the first token that breaks a
rule for marks; else the first token at which coordinates are wrong.  Tokens are checked against the
tokens before them only, so nothing behind a failure bears on it.

Main statement (`ofNotation_eq_error_iff`): a text fails with `f` exactly if it has no segment, or
its first segment that does not compile on its own has the failure `f`.
-/

namespace HandPath.Notation

open Token Traversal

/-! ### The failure of a segment, said of its tokens -/

/-- A token breaks a rule for marks after the tokens before it. -/
def markCheck (juggler : Int) (before : List Token) (t : Token) : Option Failure :=
  (t.offence (currentBeat before)).map fun v =>
    .mistake v juggler (some (ends before : Int))

/-- The waypoint with index `i` is left open. -/
def LeftOpen (cur : List Token) (i : Nat) : Prop := (cur.filter isWaypoint)[i]? = some .blank

instance (cur : List Token) (i : Nat) : Decidable (LeftOpen cur i) :=
  inferInstanceAs (Decidable (_ = _))

/-- A group cannot be read, or a beat ends whose throw or catch is left open. -/
def coordinateCheck (juggler : Int) (before : List Token) : Token → Option Failure
  | .group inside =>
    match readGroup inside juggler (some (ends before : Int)) with
    | .error f => some f
    | .ok _ => none
  | .beatEnd =>
    if LeftOpen (currentBeat before) 0 then
      some (.mistake .noThrowCoord juggler (some (ends before : Int)))
    else if LeftOpen (currentBeat before) (catchPlace (currentBeat before)) then
      some (.mistake .noCatchCoord juggler (some (ends before : Int)))
    else none
  | _ => none

/-- The failure of a segment text: each kind counts only if those above it are absent. -/
inductive SegmentFault (juggler : Int) (cs : List Char) : Failure → Prop
  | lexical {ts rest f} : Lexes cs ts rest → Stuck rest (some f) →
      SegmentFault juggler cs (.mistake f.violation juggler none)
  | ending {ts} : Lexes cs ts [] → (currentBeat ts).any isWaypoint = true →
      SegmentFault juggler cs (.mistake .badEnding juggler (some (ends ts : Int)))
  | mark {ts f} : Lexes cs ts [] → (currentBeat ts).any isWaypoint = false →
      FailsFirst (markCheck juggler) [] ts f → SegmentFault juggler cs f
  | coordinate {ts f} : Lexes cs ts [] → (currentBeat ts).any isWaypoint = false →
      Passes (markCheck juggler) [] ts → FailsFirst (coordinateCheck juggler) [] ts f →
      SegmentFault juggler cs f

variable {juggler : Int} {s : Scan}

/-! ### Laying out finds the first offence -/

theorem markCheck_of_offence {before : List Token} {t : Token} {v : Violation}
    (h : t.offence (currentBeat before) = some v) :
    markCheck juggler before t = some (.mistake v juggler (some (ends before : Int))) := by
  rw [markCheck, h]
  rfl

theorem markCheck_of_none {before : List Token} {t : Token}
    (h : t.offence (currentBeat before) = none) : markCheck juggler before t = none := by
  rw [markCheck, h]
  rfl

/-- The shape of the current beat is kept by a token that breaks no rule. -/
theorem shape_concat {before : List Token} {m : BeatMarks} {t : Token}
    (h : Shape (currentBeat before ++ [t]) m) (ht : t ≠ .beatEnd) :
    Shape (currentBeat (before ++ [t])) m := by
  rwa [currentBeat_concat before ht]

theorem layoutsFrom_finds (hs : s.fault = none) (ts : List Token) :
    ∀ (before : List Token) (m : BeatMarks), Shape (currentBeat before) m →
      Finds (markCheck juggler) before ts (layoutsFrom juggler s (ends before) m ts) := by
  -- The invariant is that the marks have the shape of the current beat; an end begins another.
  induction ts with
  | nil =>
    intro before m _
    rw [layoutsFrom, finish_of_none hs]
    exact .nil _ _ _
  | cons t ts ih =>
    intro before m hshape
    by_cases ht : t = .beatEnd
    · subst ht
      rcases hshape.close with ⟨v, hv, hclose⟩ | ⟨hfine, hclose, -⟩
      · rw [layoutsFrom, hclose]
        exact .of_some (markCheck_of_offence hv) ts
      · have hrest := ih (before ++ [.beatEnd]) .start
          (by rw [currentBeat_concat_beatEnd]; exact .start)
        rw [ends_concat_beatEnd] at hrest
        rw [layoutsFrom, hclose]
        exact .of_none (markCheck_of_none hfine) (hrest.bind_ok _)
    · rw [layoutsFrom_cons _ _ ht]
      rcases hshape.next ht with ⟨v, hv, hnext⟩ | ⟨hnone, m', hnext, hshape'⟩
      · rw [hnext]
        exact .of_some (markCheck_of_offence hv) ts
      · have hrest := ih (before ++ [t]) m' (shape_concat hshape' ht)
        rw [ends_concat before ht] at hrest
        rw [hnext]
        exact .of_none (markCheck_of_none hnone) hrest

/-! ### Filling finds the first fault of a coordinate -/

/-- Whether a waypoint is left open can be seen from its token. -/
theorem leftOpen_of_denotes {ts : List Token} {vs : List (Option Coordinate)}
    (h : List.Forall₂ Denotes ts vs) {i : Nat} (hi : i < ts.length) :
    (ts[i]? = some .blank ∧ vs[i]? = some none) ∨
      (ts[i]? ≠ some .blank ∧ ∃ c, vs[i]? = some (some c)) := by
  induction h generalizing i with
  | nil => exact absurd hi (Nat.not_lt_zero i)
  | cons hd _ ih =>
    cases i with
    | zero =>
      cases hd with
      | blank => exact .inl ⟨rfl, rfl⟩
      | group hc => exact .inr ⟨by simp, _, rfl⟩
    | succ i => exact ih (Nat.lt_of_succ_lt_succ hi)

theorem require_of_denotes (juggler : Int) {cur : List Token} {vs : List (Option Coordinate)}
    (h : List.Forall₂ Denotes (cur.filter isWaypoint) vs) {i : Nat}
    (hi : i < cur.countP isWaypoint) (v : Violation) (n : Nat) : require v juggler n vs i =
      if LeftOpen cur i then .error (.mistake v juggler (some (n : Int))) else .ok () := by
  rw [List.countP_eq_length_filter] at hi
  rcases leftOpen_of_denotes h hi with ⟨hblank, hnone⟩ | ⟨hblank, c, hc⟩
  · have hopen : LeftOpen cur i := hblank
    rw [if_pos hopen, require, hnone]
  · have hopen : ¬ LeftOpen cur i := hblank
    rw [if_neg hopen, require, hc]

/-- A beat that keeps the rules is closed unless its throw or its catch is left open; the throw
comes first. -/
theorem closeBeat_of_denotes {before : List Token} {m : BeatMarks} {layout : BeatLayout}
    {vs : List (Option Coordinate)} (hshape : Shape (currentBeat before) m)
    (hclose : m.close = .ok layout)
    (hvs : List.Forall₂ Denotes ((currentBeat before).filter isWaypoint) vs) :
    (∃ f, coordinateCheck juggler before .beatEnd = some f ∧
      closeBeat juggler (ends before) layout vs = .error f) ∨
    coordinateCheck juggler before .beatEnd = none ∧
      ∃ b, closeBeat juggler (ends before) layout vs = .ok b := by
  rcases hshape.close with ⟨v, -, hv⟩ | ⟨-, hlayout, htwo, hone, hlt⟩
  · rw [hv] at hclose
    nomatch hclose
  rw [hlayout] at hclose
  cases hclose
  -- Both places are in range, since the beat can be closed.
  have hcount := hshape.countP
  have hthrow := require_of_denotes juggler hvs (i := 0) (by omega) .noThrowCoord
    (ends before)
  have hcatch := require_of_denotes juggler hvs
    (i := catchPlace (currentBeat before)) (by omega) .noCatchCoord (ends before)
  rw [coordinateCheck, closeBeat, hthrow, hcatch]
  by_cases h0 : LeftOpen (currentBeat before) 0
  · rw [if_pos h0, if_pos h0]
    exact .inl ⟨_, rfl, rfl⟩
  rw [if_neg h0, if_neg h0]
  by_cases hk : LeftOpen (currentBeat before) (catchPlace (currentBeat before))
  · rw [if_pos hk, if_pos hk]
    exact .inl ⟨_, rfl, rfl⟩
  · rw [if_neg hk, if_neg hk]
    exact .inr ⟨rfl, _, rfl⟩

/-- Tokens that can be laid out begin with one that extends the shape, or with an end. -/
theorem exists_shape_concat {before ts : List Token} {m : BeatMarks} {t : Token}
    {ls : List BeatLayout} (hshape : Shape (currentBeat before) m) (ht : t ≠ .beatEnd)
    (h : layoutsFrom juggler s (ends before) m (t :: ts) = .ok ls) :
    ∃ m', Shape (currentBeat (before ++ [t])) m' ∧
      layoutsFrom juggler s (ends (before ++ [t])) m' ts = .ok ls := by
  rw [layoutsFrom_cons _ _ ht] at h
  obtain ⟨m', hm', h⟩ := bind_eq_ok_iff.1 h
  rw [located_eq_ok_iff] at hm'
  rw [ends_concat before ht]
  rcases hshape.next ht with ⟨v, -, hv⟩ | ⟨-, m'', hm'', hshape'⟩
  · rw [hv] at hm'
    cases hm'
  · rw [hm''] at hm'
    cases hm'
    exact ⟨m', shape_concat hshape' ht, h⟩

theorem exists_layout_concat {before ts : List Token} {m : BeatMarks} {ls : List BeatLayout}
    (h : layoutsFrom juggler s (ends before) m (.beatEnd :: ts) = .ok ls) :
    ∃ layout ls', m.close = .ok layout ∧
      layoutsFrom juggler s (ends (before ++ [.beatEnd])) .start ts = .ok ls' ∧
        ls = layout :: ls' := by
  rw [layoutsFrom] at h
  obtain ⟨layout, hlayout, h⟩ := bind_eq_ok_iff.1 h
  obtain ⟨ls', hls', h⟩ := bind_eq_ok_iff.1 h
  rw [ends_concat_beatEnd]
  exact ⟨layout, ls', located_eq_ok_iff.1 hlayout, hls', (Except.ok.inj h).symm⟩

/-- One more waypoint has been read. -/
theorem denotes_concat {before : List Token} {t : Token} {w : Option Coordinate}
    {ws : List (Option Coordinate)} (ht : t.isWaypoint = true) (hw : Denotes t w)
    (hws : List.Forall₂ Denotes ((currentBeat before).filter isWaypoint) ws.reverse) :
    List.Forall₂ Denotes ((currentBeat (before ++ [t])).filter isWaypoint) (w :: ws).reverse := by
  have hend : t ≠ .beatEnd := by
    rintro rfl
    nomatch ht
  rw [currentBeat_concat before hend, List.filter_append, List.reverse_cons,
    List.filter_cons_of_pos ht]
  exact List.rel_append hws (.cons hw .nil)

/-- Filling after the tokens `before`, whose current beat has been read as `ws`, finds the first
fault of a coordinate, if the tokens have been laid out. -/
theorem beatsFrom_finds (hs : s.fault = none) (ts : List Token) :
    ∀ (before : List Token) (m : BeatMarks) (ws : List (Option Coordinate))
      (ls : List BeatLayout), Shape (currentBeat before) m →
      layoutsFrom juggler s (ends before) m ts = .ok ls →
      List.Forall₂ Denotes ((currentBeat before).filter isWaypoint) ws.reverse →
      Finds (coordinateCheck juggler) before ts
        (beatsFrom juggler s (ends before) ws ls ts) := by
  -- The current beat has read `ws`, in reverse, and the layouts `ls` are those of the tokens left.
  induction ts with
  | nil =>
    intro before m ws ls _ _ _
    rw [beatsFrom, finish_of_none hs]
    exact .nil _ _ _
  | cons t ts ih =>
    intro before m ws ls hshape hls hws
    by_cases ht : t = .beatEnd
    · subst ht
      obtain ⟨layout, ls', hlayout, hls', rfl⟩ := exists_layout_concat hls
      rw [beatsFrom]
      rcases closeBeat_of_denotes hshape hlayout hws with ⟨f, hcheck, hclose⟩ | ⟨hcheck, b, hclose⟩
      · rw [hclose]
        exact .of_some hcheck ts
      · have hrest := ih (before ++ [.beatEnd]) .start [] ls'
          (by rw [currentBeat_concat_beatEnd]; exact .start) hls'
          (by rw [currentBeat_concat_beatEnd]; exact .nil)
        rw [ends_concat_beatEnd] at hrest
        rw [hclose]
        exact .of_none hcheck (hrest.bind_ok _)
    · obtain ⟨m', hshape', hls'⟩ := exists_shape_concat hshape ht hls
      have hrest := fun ws => ih (before ++ [t]) m' ws ls hshape' hls'
      have hends : ends (before ++ [t]) = ends before := ends_concat before ht
      rw [hends] at hrest
      -- a mark leaves what has been read as it is
      have hmark : t.isWaypoint = false →
          List.Forall₂ Denotes ((currentBeat (before ++ [t])).filter isWaypoint) ws.reverse := by
        intro hw
        rw [currentBeat_concat before ht, List.filter_append,
          List.filter_cons_of_neg (by simp [hw]), List.filter_nil, List.append_nil]
        exact hws
      cases t with
      | beatEnd => exact absurd rfl ht
      | throwMark small => exact .of_none rfl (hrest ws (hmark rfl))
      | catchMark small => exact .of_none rfl (hrest ws (hmark rfl))
      | blank => exact .of_none rfl (hrest (none :: ws) (denotes_concat rfl .blank hws))
      | group inside =>
        rw [beatsFrom]
        cases hc : readGroup inside juggler (some (ends before : Int)) with
        | error f => exact .of_some (by rw [coordinateCheck, hc]) ts
        | ok c =>
          have hw : Denotes (.group inside) (some c) := .group (readGroup_eq_ok_iff.1 hc)
          exact .of_none (by rw [coordinateCheck, hc]) (hrest _ (denotes_concat rfl hw hws))

/-! ### Segments -/

theorem compileSegment_of_stuck {cs rest : List Char} {ts : List Token} {f : ScanFault}
    (hlex : Lexes cs ts rest) (hstuck : Stuck rest (some f)) :
    compileSegment juggler cs = .error (.mistake f.violation juggler none) :=
  compileSegment_of_fault (by rw [scan_eq_iff.2 ⟨rest, hlex, hstuck⟩])

theorem compileSegment_of_lexes (juggler : Int) {cs : List Char} {ts : List Token}
    (h : Lexes cs ts []) : compileSegment juggler cs =
      if (currentBeat ts).any isWaypoint then
        .error (.mistake .badEnding juggler (some (ends ts : Int)))
      else do
        let ls ← layouts juggler ⟨ts, none⟩
        return ⟨← beats juggler ⟨ts, none⟩ ls⟩ := by
  have hscan : scan cs = ⟨ts, none⟩ := scan_eq_iff.2 ⟨[], h, .ended⟩
  rw [compileSegment_of_none (by rw [hscan]), hscan]

theorem layouts_finds (juggler : Int) (hs : s.fault = none) :
    Finds (markCheck juggler) [] s.tokens (layouts juggler s) :=
  layoutsFrom_finds hs s.tokens [] .start .start

theorem beats_finds (hs : s.fault = none) {ls : List BeatLayout}
    (hls : layouts juggler s = .ok ls) :
    Finds (coordinateCheck juggler) [] s.tokens (beats juggler s ls) :=
  beatsFrom_finds hs s.tokens [] .start [] ls .start hls .nil

/-- Laying out and then filling fail as the first token that breaks a rule for marks or, if there is
none, as the first at which coordinates are wrong. -/
theorem layouts_beats_eq_error_iff (hs : s.fault = none) {f : Failure} :
    (do
      let ls ← layouts juggler s
      return (⟨← beats juggler s ls⟩ : Segment)) = .error f ↔
        FailsFirst (markCheck juggler) [] s.tokens f ∨
          Passes (markCheck juggler) [] s.tokens ∧
            FailsFirst (coordinateCheck juggler) [] s.tokens f := by
  have hmarks := layouts_finds juggler hs
  rw [bind_eq_error_iff]
  refine ⟨?_, ?_⟩
  · rintro (h | ⟨ls, hls, h⟩)
    · exact .inl (hmarks.failsFirst h)
    rcases bind_eq_error_iff.1 h with h | ⟨bs, -, h⟩
    · exact .inr ⟨hmarks.passes hls, (beats_finds hs hls).failsFirst h⟩
    · nomatch h
  · rintro (hfirst | ⟨hpasses, hfirst⟩)
    · exact .inl (hmarks.error _ hfirst)
    · obtain ⟨ls, hls⟩ := hmarks.ok hpasses
      exact .inr ⟨ls, hls, bind_eq_error_iff.2 (.inl ((beats_finds hs hls).error _ hfirst))⟩

/-- A segment fails as its text says. -/
theorem compileSegment_eq_error_iff {cs : List Char} {f : Failure} :
    compileSegment juggler cs = .error f ↔ SegmentFault juggler cs f := by
  refine ⟨?_, ?_⟩
  · intro h
    obtain ⟨rest, hlex, hstuck⟩ := exists_lexes cs
    -- The failures by their rank: the scan, the end of the text, the marks, the coordinates.
    cases hf : (scan cs).fault with
    | some f' =>
      rw [hf] at hstuck
      rw [compileSegment_of_stuck hlex hstuck] at h
      cases h
      exact .lexical hlex hstuck
    | none =>
      rw [hf] at hstuck
      cases hstuck
      rw [compileSegment_of_lexes juggler hlex] at h
      split_ifs at h with hopen
      · cases h
        exact .ending hlex hopen
      have hopen' : (currentBeat (scan cs).tokens).any isWaypoint = false := by simpa using hopen
      rcases (layouts_beats_eq_error_iff rfl).1 h with hfirst | ⟨hpasses, hfirst⟩
      · exact .mark hlex hopen' hfirst
      · exact .coordinate hlex hopen' hpasses hfirst
  · intro h
    cases h with
    | lexical hlex hstuck => exact compileSegment_of_stuck hlex hstuck
    | ending hlex hopen => rw [compileSegment_of_lexes juggler hlex, if_pos hopen]
    | mark hlex hopen hfirst =>
      rw [compileSegment_of_lexes juggler hlex, if_neg (by simp [hopen])]
      exact (layouts_beats_eq_error_iff rfl).2 (.inl hfirst)
    | coordinate hlex hopen hpasses hfirst =>
      rw [compileSegment_of_lexes juggler hlex, if_neg (by simp [hopen])]
      exact (layouts_beats_eq_error_iff rfl).2 (.inr ⟨hpasses, hfirst⟩)

/-! ### Texts -/

/-- The segment text compiles on its own, whichever juggler it is for. -/
def Compiles (cs : List Char) : Prop := ∃ g, ∀ juggler, compileSegment juggler cs = .ok g

theorem compiles_of_eq_ok {cs : List Char} {g : Segment}
    (h : compileSegment juggler cs = .ok g) : Compiles cs :=
  ⟨g, fun juggler' => compileSegment_of_segmentText juggler' (segmentText_of_compileSegment h)⟩

theorem not_compiles_of_eq_error {cs : List Char} {f : Failure}
    (h : compileSegment juggler cs = .error f) : ¬ Compiles cs := by
  rintro ⟨g, hg⟩
  rw [hg juggler] at h
  nomatch h

/-- A run over segment texts ends at the first that does not compile. -/
theorem runFrom_failure_eq_some_iff {texts : List (List Char)} {f : Failure} :
    ∀ {juggler : Int}, (runFrom juggler texts).failure = some f ↔
      ∃ before cs after, texts = before ++ cs :: after ∧ (∀ ds ∈ before, Compiles ds) ∧
        compileSegment (juggler + (before.length : Int)) cs = .error f := by
  induction texts with
  | nil => simp [runFrom]
  | cons text texts ih =>
    intro juggler
    have hnumber : ∀ before : List (List Char),
        juggler + ((text :: before).length : Int) = juggler + 1 + (before.length : Int) := by
      intro before
      rw [List.length_cons]
      omega
    -- The first failure is that of this text, or this text compiles and it is among the others.
    rw [exists_after_cons_iff (p := Compiles)
      (q := fun before cs => compileSegment (juggler + (before.length : Int)) cs = .error f)]
    simp only [hnumber, List.length_nil, Int.natCast_zero, Int.add_zero, ← ih]
    cases hc : compileSegment juggler text with
    | error f' =>
      rw [runFrom, hc]
      have hnot : ¬ Compiles text := not_compiles_of_eq_error hc
      simp [hnot]
    | ok g =>
      rw [runFrom, hc]
      have hcompiles : Compiles text := compiles_of_eq_ok hc
      simp [hcompiles, Run.cons]

theorem result_eq_error_iff {r : Run} {f : Failure} :
    r.result = .error f ↔ r.failure = some f := by
  rw [Run.result]
  cases r.failure with
  | none => simp
  | some f' => simp

/-- A text fails as its first segment text that does not compile. -/
theorem run_failure_eq_some_iff {cs : List Char} {f : Failure} :
    (run cs).failure = some f ↔
      segmentTexts cs = [] ∧ f = .mistake .emptyNotation none none ∨
        ∃ before ds after, segmentTexts cs = before ++ ds :: after ∧
          (∀ es ∈ before, Compiles es) ∧ SegmentFault ((before.length : Int) + 1) ds f := by
  rw [run]
  cases segmentTexts cs with
  | nil => simp [eq_comm]
  | cons text texts =>
    rw [runFrom_failure_eq_some_iff]
    simp only [compileSegment_eq_error_iff, reduceCtorEq, false_and, false_or, Int.add_comm 1]

end HandPath.Notation

namespace HandPath

open Notation

/-- **Which failure is reported.**  A text fails with `f` exactly if it has no segment, or `f` is
the failure of the first of its segments that does not compile on its own, whose place is its
number.  Every text that begins with the same segments up to that one fails in the same way. -/
theorem Pattern.ofNotation_eq_error_iff (text : String) (f : Failure) :
    Pattern.ofNotation text = .error f ↔
      segmentTexts text.toList = [] ∧ f = .mistake .emptyNotation none none ∨
        ∃ before cs after, segmentTexts text.toList = before ++ cs :: after ∧
          (∀ ds ∈ before, Compiles ds) ∧ ¬ Compiles cs ∧
          SegmentFault ((before.length : Int) + 1) cs f ∧
          ∀ (text' : String) (after' : List (List Char)),
            segmentTexts text'.toList = before ++ cs :: after' →
              Pattern.ofNotation text' = .error f := by
  simp only [Pattern.ofNotation, result_eq_error_iff, run_failure_eq_some_iff]
  refine ⟨?_, ?_⟩
  · rintro (hempty | ⟨before, cs, after, heq, hbefore, hcs⟩)
    · exact .inl hempty
    · refine .inr ⟨before, cs, after, heq, hbefore,
        not_compiles_of_eq_error (compileSegment_eq_error_iff.2 hcs), hcs, ?_⟩
      exact fun text' after' heq' => .inr ⟨before, cs, after', heq', hbefore, hcs⟩
  · rintro (hempty | ⟨before, cs, after, heq, hbefore, -, hcs, -⟩)
    · exact .inl hempty
    · exact .inr ⟨before, cs, after, heq, hbefore, hcs⟩

end HandPath
