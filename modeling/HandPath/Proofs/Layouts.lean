import HandPath.Proofs.Precedence

/-!
# HandPath.Proofs.Layouts — the three walks agree on the beats of a segment

Each walk goes over the tokens by itself, and keeps its own counts.  What they agree on is the
layouts: beat by beat, the layout of a beat shows how many waypoints its tokens have and which of
them is caught at (`Shape.layout`), and the waypoints that are read for the beat are as many
(`matches_of_closeBeat`).

Main statement (`layouts_agree`): if a segment is laid out, counting cannot find another number of
beats, and filling never asks for a layout or a waypoint that is not there.
-/

namespace HandPath.Notation

open Token Traversal

variable {juggler : Int} {s : Scan}

/-- The beat has as many waypoints as the layout says, and is caught at the one that it says. -/
def BeatLayout.Matches (l : BeatLayout) (b : Beat) : Prop :=
  b.waypointCount = l.waypointCount ∧ b.catchIndex = l.catchIndex

/-! ### One beat -/

/-- The layout of a beat counts its waypoints, and the catch is at one of them but the first. -/
theorem Shape.layout {cur : List Token} {m : BeatMarks} (h : Shape cur m) {l : BeatLayout}
    (hl : m.close = .ok l) : l.waypointCount = cur.countP isWaypoint ∧ 1 ≤ l.catchIndex ∧
      l.catchIndex < l.waypointCount := by
  rcases h.close with ⟨v, -, hv⟩ | ⟨-, hclose, -, hone, hlt⟩
  · rw [hv] at hl
    nomatch hl
  · rw [hclose] at hl
    cases hl
    exact ⟨h.countP.symm, hone, hlt⟩

theorem matches_of_closeBeat {cur : List Token} {m : BeatMarks} {l : BeatLayout} {n : Nat}
    {vs : List (Option Coordinate)} {b : Beat} (h : Shape cur m) (hl : m.close = .ok l)
    (hvs : List.Forall₂ Denotes (cur.filter isWaypoint) vs)
    (hb : closeBeat juggler n l vs = .ok b) : l.Matches b := by
  obtain ⟨-, -, rfl⟩ := closeBeat_eq_ok_iff.1 hb
  have hcount := (h.layout hl).1
  refine ⟨?_, rfl⟩
  rw [hcount, List.countP_eq_length_filter]
  exact hvs.length_eq.symm

/-! ### All beats -/

/-- Only a scan without a fault is laid out. -/
theorem fault_eq_none_of_layoutsFrom {n : Nat} {m : BeatMarks} {ts : List Token}
    {ls : List BeatLayout} (h : layoutsFrom juggler s n m ts = .ok ls) : s.fault = none := by
  cases hf : s.fault with
  | none => rfl
  | some f =>
    -- A run that succeeds comes to the end of the tokens, and there it meets the fault.
    exfalso
    induction ts generalizing n m ls with
    | nil =>
      rw [layoutsFrom, finish_of_fault hf] at h
      cases h
    | cons t ts ih =>
      by_cases ht : t = .beatEnd
      · subst ht
        obtain ⟨_, -, h⟩ := bind_eq_ok_iff.1 h
        obtain ⟨_, hrest, -⟩ := bind_eq_ok_iff.1 h
        exact ih hrest
      · rw [layoutsFrom_cons _ _ ht] at h
        obtain ⟨_, -, hrest⟩ := bind_eq_ok_iff.1 h
        exact ih hrest

/-- There is one layout for each end, and each of them places the catch among the waypoints. -/
theorem layoutsFrom_bounds (hs : s.fault = none) {n : Nat} {ts : List Token}
    {ls : List BeatLayout} (h : layoutsFrom juggler s n .start ts = .ok ls) :
    ls.length = ends ts ∧ ∀ l ∈ ls, 1 ≤ l.catchIndex ∧ l.catchIndex < l.waypointCount := by
  induction ts using beats_induction generalizing n ls with
  | tail ts hend =>
    obtain ⟨-, rfl⟩ := (layoutsFrom_tail_eq_ok_iff hs hend).1 h
    exact ⟨(ends_of_not_mem hend).symm, by simp⟩
  | beat cur ts hend ih =>
    obtain ⟨m, l, ls', hshape, hl, hls', rfl⟩ := (layoutsFrom_beat_eq_ok_iff hend).1 h
    obtain ⟨hlength, hbounds⟩ := ih hls'
    refine ⟨?_, List.forall_mem_cons.2 ⟨(hshape.layout hl).2, hbounds⟩⟩
    rw [ends_append_beatEnd hend, List.length_cons, hlength]

/-- Each beat that is filled matches the layout in its place. -/
theorem beatsFrom_matches (hs : s.fault = none) {n : Nat} {ts : List Token} {ls : List BeatLayout}
    {bs : List Beat} (hls : layoutsFrom juggler s n .start ts = .ok ls)
    (hbs : beatsFrom juggler s n [] ls ts = .ok bs) : List.Forall₂ BeatLayout.Matches ls bs := by
  induction ts using beats_induction generalizing n ls bs with
  | tail ts hend =>
    obtain ⟨-, rfl⟩ := (layoutsFrom_tail_eq_ok_iff hs hend).1 hls
    obtain ⟨-, rfl⟩ := (beatsFrom_tail_eq_ok_iff hs hend).1 hbs
    exact .nil
  | beat cur ts hend ih =>
    obtain ⟨m, l, ls', hshape, hl, hls', rfl⟩ := (layoutsFrom_beat_eq_ok_iff hend).1 hls
    obtain ⟨vs, b, bs', hvs, hb, hbs', rfl⟩ := (beatsFrom_beat_eq_ok_iff hend).1 hbs
    exact .cons (matches_of_closeBeat hshape hl hvs hb) (ih hls' hbs')

/-! ### Indices -/

theorem readGroup_ne_outOfRange (inside : List Char) (juggler beat : Option Int) :
    readGroup inside juggler beat ≠ .error .outOfRange := by
  intro h
  rcases readGroup_eq_error_iff.1 h with ⟨-, h⟩ | ⟨_, _, _, -, -, h⟩
  · nomatch h
  · nomatch h

theorem coordinateCheck_ne_outOfRange (juggler : Int) (before : List Token) (t : Token) :
    coordinateCheck juggler before t ≠ some .outOfRange := by
  cases t with
  | group inside =>
    have hread := readGroup_ne_outOfRange inside (some juggler) (some (ends before : Int))
    rw [coordinateCheck]
    cases hc : readGroup inside juggler (some (ends before : Int)) with
    | ok c => simp
    | error f =>
      rw [hc] at hread
      simpa using hread
  | beatEnd =>
    rw [coordinateCheck]
    split_ifs <;> simp [Failure.mistake]
  | blank => simp [coordinateCheck]
  | throwMark small => simp [coordinateCheck]
  | catchMark small => simp [coordinateCheck]

/-- A segment that is laid out is filled without an index out of range. -/
theorem beats_ne_outOfRange (hs : s.fault = none) {ls : List BeatLayout}
    (hls : layouts juggler s = .ok ls) : beats juggler s ls ≠ .error .outOfRange := by
  intro h
  obtain ⟨before, t, _, -, -, ht⟩ := (beats_finds hs hls).failsFirst h
  exact coordinateCheck_ne_outOfRange juggler _ t ht

/-- **The walks agree.**  If a segment is laid out, whether or not waypoints follow its last end,
there is one layout for each end among its tokens, and counting finds as many beats or fails at the
beat after the last.  Every layout places the catch at one of its waypoints but the first.  Filling
does not fail for an index out of range, and the beats that it gives match the layouts one by
one. -/
theorem layouts_agree {cs : List Char} {ls : List BeatLayout}
    (h : layouts juggler (scan cs) = .ok ls) :
    ls.length = (scan cs).tokens.count .beatEnd ∧
      (period juggler (scan cs) = .ok ls.length ∨
        period juggler (scan cs) =
          .error (.mistake .badEnding (some juggler) (some (ls.length : Int)))) ∧
      (∀ l ∈ ls, 1 ≤ l.catchIndex ∧ l.catchIndex < l.waypointCount) ∧
      beats juggler (scan cs) ls ≠ .error .outOfRange ∧
      ∀ bs, beats juggler (scan cs) ls = .ok bs → List.Forall₂ BeatLayout.Matches ls bs := by
  have hs := fault_eq_none_of_layoutsFrom h
  obtain ⟨hlength, hbounds⟩ := layoutsFrom_bounds hs h
  refine ⟨hlength, ?_, hbounds, beats_ne_outOfRange hs h, fun bs => beatsFrom_matches hs h⟩
  rw [period_of_none hs, hlength]
  -- Counting refuses waypoints after the last end, and laying out does not.
  by_cases hopen : (currentBeat (scan cs).tokens).any isWaypoint = true
  · exact .inr (if_pos hopen)
  · exact .inl (if_neg hopen)

/-- The segment ends within its second beat, so that it is laid out and filled though counting
fails. -/
theorem layouts_agree_unfinished :
    layouts 2 (scan "(1)c(2)-.T(3)".toList) = .ok [⟨3, 1⟩] ∧
      period 2 (scan "(1)c(2)-.T(3)".toList) =
        .error (.mistake .badEnding (some 2) (some 1)) ∧
      ∃ b, beats 2 (scan "(1)c(2)-.T(3)".toList) [⟨3, 1⟩] = .ok [b] ∧ b.waypointCount = 3 ∧
        b.catchIndex = 1 := by
  have h : layouts 2 (scan "(1)c(2)-.T(3)".toList) = .ok [⟨3, 1⟩] := rfl
  obtain ⟨-, hperiod, -, -, hmatch⟩ := layouts_agree h
  have hbeats : beats 2 (scan "(1)c(2)-.T(3)".toList) [⟨3, 1⟩] = .ok [_] := rfl
  obtain ⟨hcount, hindex⟩ := (List.forall₂_cons.1 (hmatch _ hbeats)).1
  refine ⟨h, hperiod.resolve_left ?_, _, hbeats, hcount, hindex⟩
  intro hok
  nomatch hok

end HandPath.Notation
