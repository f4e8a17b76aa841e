import HandPath.Proofs.Lexing
import HandPath.Proofs.Walks

/-!
# HandPath.Proofs.Grammar — the grammar of segment texts, and what they denote

`SegmentText cs bs`: the text `cs`, in which there are no spaces outside groups, is a segment and
denotes the beats `bs`.  The grammar is over characters and knows nothing of tokens or walks.

Main statement (`compileSegment_eq_ok_iff`): a segment compiles to `g` exactly if its text without
spaces is in the grammar and denotes the beats of `g`, for every number of its juggler.

Between the two stands the same grammar over tokens, `SegmentTokens`: the texts of its tokens are
the texts of the grammar (`segmentText_iff`), and it holds exactly if the walks succeed
(`compileSegment_eq_ok_iff_tokens`).  Both directions go beat by beat (`beats_induction`).
-/

namespace HandPath.Notation

open Token Traversal

/-! ### The grammar -/

/-- A waypoint: a hyphen leaves it open, a group gives it a coordinate. -/
inductive WaypointText : List Char → Option Coordinate → Prop
  | blank : WaypointText ['-'] none
  | group {inside : List Char} {c : Coordinate} : ')' ∉ inside → GroupText inside c →
      WaypointText ('(' :: inside ++ [')']) (some c)

/-- Waypoints, one after the other. -/
inductive WaypointsText : List Char → List (Option Coordinate) → Prop
  | nil : WaypointsText [] []
  | cons {cs ds w ws} : WaypointText cs w → WaypointsText ds ws →
      WaypointsText (cs ++ ds) (w :: ws)

/-- No throw mark, or one. -/
inductive ThrowText : List Char → Prop
  | absent : ThrowText []
  | capital : ThrowText ['T']
  | small : ThrowText ['t']

/-- A beat with its point: two waypoints or more after the throw mark, and perhaps a catch mark
before one of them that is not the first.  The first waypoint has a coordinate, and so has the one
after the catch mark or, without a catch mark, the last one. -/
inductive BeatText : List Char → Beat → Prop
  | unmarked {throw cs ws} : ThrowText throw → WaypointsText cs ws → 2 ≤ ws.length →
      (∃ c, ws[0]? = some (some c)) → (∃ c, ws[ws.length - 1]? = some (some c)) →
      BeatText (throw ++ (cs ++ ['.'])) ⟨ws, (ws.length - 1 : Nat)⟩
  | marked {throw before after vs ws} {mark : Char} : ThrowText throw → mark = 'C' ∨ mark = 'c' →
      WaypointsText before vs → WaypointsText after ws → 1 ≤ vs.length → 2 ≤ (vs ++ ws).length →
      (∃ c, (vs ++ ws)[0]? = some (some c)) → (∃ c, (vs ++ ws)[vs.length]? = some (some c)) →
      BeatText (throw ++ (before ++ mark :: (after ++ ['.']))) ⟨vs ++ ws, vs.length⟩

/-- Beats, and at most one throw mark after the last one. -/
inductive SegmentText : List Char → List Beat → Prop
  | trailing {throw} : ThrowText throw → SegmentText throw []
  | beat {cs ds b bs} : BeatText cs b → SegmentText ds bs → SegmentText (cs ++ ds) (b :: bs)

/-! ### The grammar over tokens -/

/-- Tokens of a beat that may end after them, and the beat they denote. -/
structure BeatTokens (cur : List Token) (b : Beat) : Prop where
  shape : ∃ m, Shape cur m
  fine : Token.beatEnd.offence cur = none
  denotes : List.Forall₂ Denotes (cur.filter isWaypoint) b.waypoints
  throws : ∃ c, b.waypoints[0]? = some (some c)
  catches : ∃ c, b.waypoints[catchPlace cur]? = some (some c)
  catchIndex : b.catchIndex = catchPlace cur

/-- Tokens of a segment, and the beats they denote. -/
inductive SegmentTokens : List Token → List Beat → Prop
  | trailing {throw} : OptionalThrow throw → SegmentTokens throw []
  | beat {cur ts b bs} : BeatTokens cur b → SegmentTokens ts bs →
      SegmentTokens (cur ++ .beatEnd :: ts) (b :: bs)

theorem Shape.beatEnd_not_mem {cur : List Token} {m : BeatMarks} (h : Shape cur m) :
    .beatEnd ∉ cur := by
  have hw : ∀ {ws : List Token}, Waypoints ws → .beatEnd ∉ ws := fun hws hmem =>
    nomatch hws _ hmem
  have ht : ∀ {ts : List Token}, OptionalThrow ts → .beatEnd ∉ ts := by
    rintro ts (rfl | ⟨small, rfl⟩) <;> simp
  cases h with
  | unmarked hthrow hws => simp [ht hthrow, hw hws]
  | marked hthrow hb _ ha => simp [ht hthrow, hw hb, hw ha]

/-- Induction on tokens by the beats that they end. -/
theorem beats_induction {motive : List Token → Prop}
    (tail : ∀ ts, .beatEnd ∉ ts → motive ts)
    (beat : ∀ cur ts, .beatEnd ∉ cur → motive ts → motive (cur ++ .beatEnd :: ts))
    (ts : List Token) : motive ts := by
  -- What follows an end is shorter, but need not be the tail of the list.
  induction hn : ts.length using Nat.strong_induction_on generalizing ts with
  | _ n ih =>
    by_cases hend : .beatEnd ∈ ts
    · obtain ⟨cur, us, rfl, hcur⟩ := List.eq_append_cons_of_mem hend
      rw [List.length_append, List.length_cons] at hn
      exact beat cur us hcur (ih _ (by omega) us rfl)
    · exact tail ts hend

/-! ### Walks and the grammar over tokens -/

variable {juggler : Int} {s : Scan}

/-- A beat is laid out and closed exactly if it may end there and its throw and its catch have
coordinates. -/
theorem beatTokens_iff {n : Nat} {cur : List Token} {b : Beat} : BeatTokens cur b ↔
    ∃ m layout vs, Shape cur m ∧ m.close = .ok layout ∧
      List.Forall₂ Denotes (cur.filter isWaypoint) vs ∧
      closeBeat juggler n layout vs = .ok b := by
  refine ⟨?_, ?_⟩
  · intro h
    obtain ⟨m, hm⟩ := h.shape
    rcases hm.close with ⟨v, hv, -⟩ | ⟨-, hclose, -⟩
    · rw [h.fine] at hv
      nomatch hv
    · refine ⟨m, _, b.waypoints, hm, hclose, h.denotes, ?_⟩
      refine closeBeat_eq_ok_iff.2 ⟨h.throws, h.catches, ?_⟩
      rw [← h.catchIndex]
  · rintro ⟨m, layout, vs, hm, hclose, hvs, hb⟩
    rcases hm.close with ⟨v, -, hv⟩ | ⟨hfine, hclose', -⟩
    · rw [hv] at hclose
      nomatch hclose
    · rw [hclose'] at hclose
      cases hclose
      obtain ⟨h0, hk, rfl⟩ := closeBeat_eq_ok_iff.1 hb
      exact ⟨⟨m, hm⟩, hfine, hvs, h0, hk, rfl⟩

theorem segmentTokens_of_walks (hs : s.fault = none) {n : Nat} {ts : List Token} {bs : List Beat}
    {ls : List BeatLayout} (hopen : (currentBeat ts).any isWaypoint = false)
    (hls : layoutsFrom juggler s n .start ts = .ok ls)
    (hbs : beatsFrom juggler s n [] ls ts = .ok bs) : SegmentTokens ts bs := by
  induction ts using beats_induction generalizing n bs ls with
  | tail ts hend =>
    obtain ⟨⟨m, hm⟩, rfl⟩ := (layoutsFrom_tail_eq_ok_iff hs hend).1 hls
    obtain ⟨-, rfl⟩ := (beatsFrom_tail_eq_ok_iff hs hend).1 hbs
    rw [currentBeat_of_not_mem hend] at hopen
    exact .trailing (hm.optionalThrow hopen)
  | beat cur ts hend ih =>
    obtain ⟨m, layout, ls', hm, hclose, hls', rfl⟩ := (layoutsFrom_beat_eq_ok_iff hend).1 hls
    obtain ⟨vs, b, bs', hvs, hb, hbs', rfl⟩ := (beatsFrom_beat_eq_ok_iff hend).1 hbs
    rw [currentBeat_append_beatEnd] at hopen
    exact .beat (beatTokens_iff.2 ⟨m, layout, vs, hm, hclose, hvs, hb⟩) (ih hopen hls' hbs')

theorem OptionalThrow.beatEnd_not_mem {ts : List Token} (h : OptionalThrow ts) :
    .beatEnd ∉ ts := by
  rcases h with rfl | ⟨small, rfl⟩ <;> simp

theorem SegmentTokens.walks (hs : s.fault = none) {ts : List Token} {bs : List Beat}
    (h : SegmentTokens ts bs) (n : Nat) : (currentBeat ts).any isWaypoint = false ∧
      ∃ ls, layoutsFrom juggler s n .start ts = .ok ls ∧
        beatsFrom juggler s n [] ls ts = .ok bs := by
  induction h generalizing n with
  | @trailing throw ht =>
    have hend := ht.beatEnd_not_mem
    -- After the last end the walks meet a throw mark at most: no layout and no beat.
    have hshape : Shape throw ⟨0, !throw.isEmpty, none⟩ := by
      simpa using Shape.unmarked ht waypoints_nil
    have hfilter : throw.filter isWaypoint = [] := by
      simpa using Shape.filter_unmarked ht waypoints_nil
    refine ⟨by rw [currentBeat_of_not_mem hend, ht.any_isWaypoint], [], ?_, ?_⟩
    · exact (layoutsFrom_tail_eq_ok_iff hs hend).2 ⟨⟨_, hshape⟩, rfl⟩
    · exact (beatsFrom_tail_eq_ok_iff hs hend).2 ⟨⟨[], by rw [hfilter]; exact .nil⟩, rfl⟩
  | @beat cur ts b bs hb _ ih =>
    obtain ⟨hopen, ls, hls, hbs⟩ := ih (n + 1)
    obtain ⟨m, layout, vs, hm, hclose, hvs, hb⟩ := (beatTokens_iff (n := n)).1 hb
    have hend := hm.beatEnd_not_mem
    refine ⟨by rwa [currentBeat_append_beatEnd], layout :: ls, ?_, ?_⟩
    · exact (layoutsFrom_beat_eq_ok_iff hend).2 ⟨m, layout, ls, hm, hclose, hls, rfl⟩
    · exact (beatsFrom_beat_eq_ok_iff hend).2 ⟨vs, b, bs, hvs, hb, hbs, rfl⟩

/-- The walks over the tokens of a segment succeed exactly if these are in the grammar. -/
theorem compileSegment_eq_ok_iff_tokens {cs : List Char} {g : Segment} :
    compileSegment juggler cs = .ok g ↔
      (scan cs).fault = none ∧ SegmentTokens (scan cs).tokens g.beats := by
  rw [compileSegment_eq_ok_iff_walks]
  refine ⟨?_, ?_⟩
  · rintro ⟨hs, hopen, ls, hls, hbs⟩
    exact ⟨hs, segmentTokens_of_walks hs hopen hls hbs⟩
  · rintro ⟨hs, h⟩
    exact ⟨hs, h.walks hs 0⟩

/-! ### Characters and tokens -/

theorem Denotes.isWaypoint {t : Token} {w : Option Coordinate} (h : Denotes t w) :
    t.isWaypoint = true := by
  cases h <;> rfl

theorem waypoints_of_denotes {ts : List Token} {ws : List (Option Coordinate)}
    (h : List.Forall₂ Denotes ts ws) : Waypoints ts := by
  induction h with
  | nil => exact waypoints_nil
  | cons hw _ ih => exact List.forall_mem_cons.2 ⟨hw.isWaypoint, ih⟩

theorem waypointText_iff {cs : List Char} {w : Option Coordinate} :
    WaypointText cs w ↔ ∃ t, t.Closed ∧ cs = t.chars ∧ Denotes t w := by
  refine ⟨?_, ?_⟩
  · intro h
    cases h with
    | blank => exact ⟨.blank, trivial, rfl, .blank⟩
    | group hclosed hc => exact ⟨.group _, hclosed, rfl, .group hc⟩
  · rintro ⟨t, hclosed, rfl, h⟩
    cases h with
    | blank => exact .blank
    | group hc => exact .group hclosed hc

theorem waypointsText_iff {cs : List Char} {ws : List (Option Coordinate)} :
    WaypointsText cs ws ↔
      ∃ ts, (∀ t ∈ ts, t.Closed) ∧ cs = render ts ∧ List.Forall₂ Denotes ts ws := by
  refine ⟨?_, ?_⟩
  · intro h
    induction h with
    | nil => exact ⟨[], by simp, rfl, .nil⟩
    | cons hw _ ih =>
      obtain ⟨t, ht, rfl, hden⟩ := waypointText_iff.1 hw
      obtain ⟨ts, hts, rfl, hdens⟩ := ih
      exact ⟨t :: ts, List.forall_mem_cons.2 ⟨ht, hts⟩, rfl, .cons hden hdens⟩
  · rintro ⟨ts, hts, rfl, h⟩
    induction h with
    | nil => exact .nil
    | cons hden _ ih =>
      obtain ⟨ht, hts⟩ := List.forall_mem_cons.1 hts
      exact .cons (waypointText_iff.2 ⟨_, ht, rfl, hden⟩) (ih hts)

theorem throwText_iff {cs : List Char} :
    ThrowText cs ↔ ∃ ts, OptionalThrow ts ∧ cs = render ts := by
  refine ⟨?_, ?_⟩
  · intro h
    cases h with
    | absent => exact ⟨[], .inl rfl, rfl⟩
    | capital => exact ⟨[.throwMark false], .inr ⟨_, rfl⟩, rfl⟩
    | small => exact ⟨[.throwMark true], .inr ⟨_, rfl⟩, rfl⟩
  · rintro ⟨ts, rfl | ⟨small, rfl⟩, rfl⟩
    · exact .absent
    · cases small
      · exact .capital
      · exact .small

theorem OptionalThrow.closed {ts : List Token} (h : OptionalThrow ts) : ∀ t ∈ ts, t.Closed := by
  rcases h with rfl | ⟨small, rfl⟩ <;> simp [Token.Closed]

theorem BeatTokens.unmarked {throw ts : List Token} {ws : List (Option Coordinate)}
    (hthrow : OptionalThrow throw) (hden : List.Forall₂ Denotes ts ws) (htwo : 2 ≤ ws.length)
    (h0 : ∃ c, ws[0]? = some (some c)) (hk : ∃ c, ws[ws.length - 1]? = some (some c)) :
    BeatTokens (throw ++ ts) ⟨ws, (ws.length - 1 : Nat)⟩ := by
  have hways := waypoints_of_denotes hden
  have hshape := Shape.unmarked hthrow hways
  have hplace := hshape.catchPlace_eq
  dsimp only [Option.getD_none] at hplace
  rw [hden.length_eq] at hplace
  refine ⟨⟨_, hshape⟩, hshape.fine_iff.2 ⟨?_, fun k hk => nomatch hk⟩, ?_, h0, ?_, ?_⟩
  · rwa [hden.length_eq]
  · rwa [Shape.filter_unmarked hthrow hways]
  · rwa [hplace]
  · rw [hplace]

theorem BeatTokens.marked {throw before after : List Token} {vs ws : List (Option Coordinate)}
    (small : Bool) (hthrow : OptionalThrow throw) (hden : List.Forall₂ Denotes before vs)
    (hden' : List.Forall₂ Denotes after ws) (hone : 1 ≤ vs.length) (htwo : 2 ≤ (vs ++ ws).length)
    (h0 : ∃ c, (vs ++ ws)[0]? = some (some c)) (hk : ∃ c, (vs ++ ws)[vs.length]? = some (some c)) :
    BeatTokens (throw ++ (before ++ .catchMark small :: after)) ⟨vs ++ ws, vs.length⟩ := by
  have hways := waypoints_of_denotes hden
  have hways' := waypoints_of_denotes hden'
  have hne : before ≠ [] := by
    rw [← List.length_pos_iff, hden.length_eq]
    exact hone
  -- The catch has a coordinate, so that a waypoint follows its mark.
  have hafter : 0 < after.length := by
    rw [hden'.length_eq, List.length_pos_iff]
    rintro rfl
    obtain ⟨c, hc⟩ := hk
    simp at hc
  have hshape := @Shape.marked throw before after small hthrow hways hne hways'
  have hplace := hshape.catchPlace_eq
  dsimp only [Option.getD_some] at hplace
  refine ⟨⟨_, hshape⟩, hshape.fine_iff.2 ⟨?_, fun k hk => ?_⟩, ?_, h0, ?_, ?_⟩
  · rw [List.length_append, ← hden.length_eq, ← hden'.length_eq] at htwo
    exact htwo
  · cases hk
    dsimp only
    omega
  · rw [Shape.filter_marked hthrow hways hways']
    exact forall₂_append_left_iff.2 ⟨vs, ws, hden, hden', rfl⟩
  · rwa [hplace, hden.length_eq]
  · rw [hplace, hden.length_eq]

theorem beatTokens_of_beatText {cs : List Char} {b : Beat} (h : BeatText cs b) :
    ∃ cur, (∀ t ∈ cur, t.Closed) ∧ cs = render cur ++ ['.'] ∧ BeatTokens cur b := by
  cases h with
  | unmarked ht hws htwo h0 hk =>
    obtain ⟨throw, hthrow, rfl⟩ := throwText_iff.1 ht
    obtain ⟨ts, hclosed, rfl, hden⟩ := waypointsText_iff.1 hws
    exact ⟨throw ++ ts, List.forall_mem_append.2 ⟨hthrow.closed, hclosed⟩, by simp,
      .unmarked hthrow hden htwo h0 hk⟩
  | @marked _ _ _ _ _ mark ht hmark hb ha hone htwo h0 hk =>
    obtain ⟨throw, hthrow, rfl⟩ := throwText_iff.1 ht
    obtain ⟨before, hclosed, rfl, hden⟩ := waypointsText_iff.1 hb
    obtain ⟨after, hclosed', rfl, hden'⟩ := waypointsText_iff.1 ha
    obtain ⟨small, rfl⟩ : ∃ small : Bool, mark = if small then 'c' else 'C' := by
      rcases hmark with rfl | rfl
      · exact ⟨false, rfl⟩
      · exact ⟨true, rfl⟩
    refine ⟨throw ++ (before ++ .catchMark small :: after), ?_, by simp [Token.chars],
      .marked small hthrow hden hden' hone htwo h0 hk⟩
    refine List.forall_mem_append.2 ⟨hthrow.closed, List.forall_mem_append.2 ⟨hclosed, ?_⟩⟩
    exact List.forall_mem_cons.2 ⟨trivial, hclosed'⟩

theorem BeatTokens.beatText {cur : List Token} {b : Beat} (hclosed : ∀ t ∈ cur, t.Closed)
    (h : BeatTokens cur b) : BeatText (render cur ++ ['.']) b := by
  obtain ⟨⟨m, hshape⟩, hfine, hden, h0, hk, hcatch⟩ := h
  have htwo := (hshape.fine_iff.1 hfine).1
  have hplace := hshape.catchPlace_eq
  obtain ⟨ws, k⟩ := b
  dsimp only at hden h0 hk hcatch
  subst hcatch
  -- Without a catch mark the catch is the last waypoint; with one the waypoints are cut at it.
  cases hshape with
  | @unmarked throw ts hthrow hways =>
    rw [Shape.filter_unmarked hthrow hways] at hden
    dsimp only [Option.getD_none] at hplace htwo
    rw [hden.length_eq] at hplace htwo
    rw [hplace] at hk ⊢
    have hws := waypointsText_iff.2 ⟨ts, (List.forall_mem_append.1 hclosed).2, rfl, hden⟩
    simpa using BeatText.unmarked (throwText_iff.2 ⟨throw, hthrow, rfl⟩) hws htwo h0 hk
  | @marked throw before after small hthrow hb hne ha =>
    rw [Shape.filter_marked hthrow hb ha] at hden
    obtain ⟨vs, ws', hvs, hws', rfl⟩ := forall₂_append_left_iff.1 hden
    dsimp only [Option.getD_some] at hplace htwo
    rw [hvs.length_eq, hws'.length_eq] at htwo
    rw [hvs.length_eq] at hplace
    rw [hplace] at hk ⊢
    obtain ⟨-, hclosed⟩ := List.forall_mem_append.1 hclosed
    obtain ⟨hclosed, hclosed'⟩ := List.forall_mem_append.1 hclosed
    have hone : 1 ≤ vs.length := by
      rw [← hvs.length_eq]
      exact List.length_pos_iff.2 hne
    have hmark : ∀ small : Bool, (if small then 'c' else 'C') = 'C' ∨
        (if small then 'c' else 'C') = 'c' := by decide
    have hbefore := waypointsText_iff.2 ⟨before, hclosed, rfl, hvs⟩
    have hafter := waypointsText_iff.2
      ⟨after, (List.forall_mem_cons.1 hclosed').2, rfl, hws'⟩
    simpa [Token.chars] using BeatText.marked (throwText_iff.2 ⟨throw, hthrow, rfl⟩) (hmark small)
      hbefore hafter hone (by rwa [List.length_append]) h0 hk

/-- The texts of the grammar are the texts of tokens in the grammar over tokens. -/
theorem segmentText_iff {cs : List Char} {bs : List Beat} : SegmentText cs bs ↔
    ∃ ts, (∀ t ∈ ts, t.Closed) ∧ cs = render ts ∧ SegmentTokens ts bs := by
  refine ⟨?_, ?_⟩
  · intro h
    induction h with
    | trailing ht =>
      obtain ⟨ts, hthrow, rfl⟩ := throwText_iff.1 ht
      exact ⟨ts, hthrow.closed, rfl, .trailing hthrow⟩
    | beat hb _ ih =>
      obtain ⟨cur, hcur, rfl, hcurb⟩ := beatTokens_of_beatText hb
      obtain ⟨ts, hts, rfl, hbs⟩ := ih
      refine ⟨cur ++ .beatEnd :: ts, ?_, by simp [Token.chars], .beat hcurb hbs⟩
      exact List.forall_mem_append.2 ⟨hcur, List.forall_mem_cons.2 ⟨trivial, hts⟩⟩
  · rintro ⟨ts, hts, rfl, h⟩
    induction h with
    | trailing hthrow => exact .trailing (throwText_iff.2 ⟨_, hthrow, rfl⟩)
    | @beat cur ts b bs hb _ ih =>
      obtain ⟨hcur, hts⟩ := List.forall_mem_append.1 hts
      have hbeat := hb.beatText hcur
      simpa [Token.chars] using SegmentText.beat hbeat (ih (List.forall_mem_cons.1 hts).2)

/-! ### Main statement -/

theorem segmentText_of_compileSegment {cs : List Char} {g : Segment}
    (h : compileSegment juggler cs = .ok g) : SegmentText (withoutSpaces cs) g.beats := by
  obtain ⟨hf, h⟩ := compileSegment_eq_ok_iff_tokens.1 h
  have hscan : scan cs = ⟨(scan cs).tokens, none⟩ := by rw [← hf]
  obtain ⟨heq, hclosed⟩ := withoutSpaces_eq_render hscan
  exact segmentText_iff.2 ⟨_, hclosed, heq, h⟩

theorem compileSegment_of_segmentText (juggler : Int) {cs : List Char} {g : Segment}
    (h : SegmentText (withoutSpaces cs) g.beats) : compileSegment juggler cs = .ok g := by
  obtain ⟨ts, hclosed, heq, h⟩ := segmentText_iff.1 h
  have hscan := scan_of_withoutSpaces_eq heq hclosed
  rw [compileSegment_eq_ok_iff_tokens, hscan]
  exact ⟨rfl, h⟩

/-- **The grammar of segments.**  A segment text compiles exactly if, without its spaces outside
groups, it is in the grammar, and it compiles to the beats that it denotes there.  The number of the
juggler makes no difference. -/
theorem compileSegment_eq_ok_iff (juggler : Int) (cs : List Char) (g : Segment) :
    compileSegment juggler cs = .ok g ↔ SegmentText (withoutSpaces cs) g.beats :=
  ⟨segmentText_of_compileSegment, compileSegment_of_segmentText juggler⟩

end HandPath.Notation
