import HandPath.Notation.Compile
import HandPath.Proofs.Group
import HandPath.Proofs.Marks

/-!
# HandPath.Proofs.Walks — the three walks over the tokens of a segment

A scan without a fault is walked three times.  Each walk is a run over the tokens of one beat after
those of another: counting sees the ends and whether waypoints follow the last one
(`countEnds_eq`), laying out runs the marks of a beat to its end (`layoutsFrom_append`), filling
reads its waypoints (`beatsFrom_append`).  A segment compiles if all three succeed
(`compileSegment_eq_ok_iff_walks`); the fault of a scan is found by the first walk
(`compileSegment_of_fault`).
-/

namespace HandPath.Notation

open Token Traversal

/-! ### Counting -/

/-- The tokens after the last end. -/
def currentBeat (ts : List Token) : List Token := ts.rtakeWhile fun t => t ≠ .beatEnd

/-- The number of ends. -/
def ends (ts : List Token) : Nat := ts.count .beatEnd

@[simp] theorem currentBeat_nil : currentBeat [] = [] := List.rtakeWhile_nil _

@[simp] theorem currentBeat_concat_beatEnd (ts : List Token) :
    currentBeat (ts ++ [.beatEnd]) = [] := List.rtakeWhile_concat_neg _ _ _ (by simp)

theorem currentBeat_concat (ts : List Token) {t : Token} (h : t ≠ .beatEnd) :
    currentBeat (ts ++ [t]) = currentBeat ts ++ [t] :=
  List.rtakeWhile_concat_pos _ _ _ (by simpa using h)

@[simp] theorem ends_nil : ends [] = 0 := rfl

theorem ends_append (ts us : List Token) : ends (ts ++ us) = ends ts + ends us :=
  List.count_append

theorem ends_of_not_mem {ts : List Token} (h : .beatEnd ∉ ts) : ends ts = 0 :=
  List.count_eq_zero.2 h

@[simp] theorem ends_concat_beatEnd (ts : List Token) : ends (ts ++ [.beatEnd]) = ends ts + 1 :=
  ends_append ts _

theorem ends_concat (ts : List Token) {t : Token} (h : t ≠ .beatEnd) :
    ends (ts ++ [t]) = ends ts := by
  have hlast : ends [t] = 0 := ends_of_not_mem (by simpa using h.symm)
  rw [ends_append, hlast, Nat.add_zero]

theorem ends_append_beatEnd {cur : List Token} (h : .beatEnd ∉ cur) (ts : List Token) :
    ends (cur ++ .beatEnd :: ts) = ends ts + 1 := by
  rw [ends_append, ends_of_not_mem h, Nat.zero_add]
  exact List.count_cons_self

theorem currentBeat_of_not_mem {ts : List Token} (h : .beatEnd ∉ ts) : currentBeat ts = ts := by
  rw [currentBeat, List.rtakeWhile_eq_self_iff]
  intro t ht
  simp only [decide_eq_true_eq]
  rintro rfl
  exact h ht

theorem currentBeat_append_beatEnd (cur ts : List Token) :
    currentBeat (cur ++ .beatEnd :: ts) = currentBeat ts := by
  induction ts using List.reverseRecOn with
  | nil => exact currentBeat_concat_beatEnd cur
  | append_singleton ts t ih =>
    rw [← List.cons_append, ← List.append_assoc]
    by_cases ht : t = .beatEnd
    · subst ht
      rw [currentBeat_concat_beatEnd, currentBeat_concat_beatEnd]
    · rw [currentBeat_concat _ ht, currentBeat_concat _ ht, ih]

theorem countEnds_append (n : Nat) (pending : Bool) (ts us : List Token) :
    countEnds n pending (ts ++ us) =
      countEnds (countEnds n pending ts).1 (countEnds n pending ts).2 us := by
  induction ts generalizing n pending with
  | nil => rfl
  | cons t ts ih => cases t <;> exact ih _ _

/-- Counting gives the number of ends and whether a waypoint follows the last one. -/
theorem countEnds_eq (ts : List Token) :
    countEnds 0 false ts = (ends ts, (currentBeat ts).any isWaypoint) := by
  -- From the end: an end empties the current beat, any other token extends it.
  induction ts using List.reverseRecOn with
  | nil => rfl
  | append_singleton ts t ih =>
    rw [countEnds_append, ih]
    by_cases ht : t = .beatEnd
    · subst ht
      rw [ends_concat_beatEnd, currentBeat_concat_beatEnd]
      rfl
    · rw [ends_concat _ ht, currentBeat_concat _ ht, List.any_append]
      cases t <;> simp_all [countEnds, isWaypoint]

/-! ### A scan without a fault -/

variable {juggler : Int} {s : Scan}

theorem finish_of_fault {f : ScanFault} (h : s.fault = some f) {α : Type}
    (r : Except Failure α) : s.finish juggler r = .error (.mistake f.violation juggler none) := by
  rw [Scan.finish, h]

theorem finish_of_none (h : s.fault = none) {α : Type} (r : Except Failure α) :
    s.finish juggler r = r := by
  rw [Scan.finish, h]

theorem period_of_none (h : s.fault = none) : period juggler s =
    if (currentBeat s.tokens).any isWaypoint then
      .error (.mistake .badEnding juggler (some (ends s.tokens : Int)))
    else .ok (ends s.tokens) := by
  rw [period, countEnds_eq]
  exact finish_of_none h _

/-- The fault of a scan is the failure of the segment, whatever stands before it. -/
theorem compileSegment_of_fault {cs : List Char} {f : ScanFault} (h : (scan cs).fault = some f) :
    compileSegment juggler cs = .error (.mistake f.violation juggler none) := by
  rw [compileSegment, period, countEnds_eq]
  dsimp only
  rw [finish_of_fault h]
  rfl

theorem compileSegment_of_none {cs : List Char} (h : (scan cs).fault = none) :
    compileSegment juggler cs =
      if (currentBeat (scan cs).tokens).any isWaypoint then
        .error (.mistake .badEnding juggler (some (ends (scan cs).tokens : Int)))
      else do
        let ls ← layouts juggler (scan cs)
        return ⟨← beats juggler (scan cs) ls⟩ := by
  rw [compileSegment, period_of_none h]
  split_ifs <;> rfl

/-- A segment compiles if its scan has no fault, no waypoint follows the last end, and it can be
laid out and filled. -/
theorem compileSegment_eq_ok_iff_walks {cs : List Char} {g : Segment} :
    compileSegment juggler cs = .ok g ↔ (scan cs).fault = none ∧
      (currentBeat (scan cs).tokens).any isWaypoint = false ∧
      ∃ ls, layouts juggler (scan cs) = .ok ls ∧ beats juggler (scan cs) ls = .ok g.beats := by
  -- With a fault of the scan, or with waypoints after the last end, neither side holds.
  cases hf : (scan cs).fault with
  | some f =>
    rw [compileSegment_of_fault hf]
    refine ⟨?_, ?_⟩
    · intro h
      nomatch h
    · rintro ⟨h, -⟩
      nomatch h
  | none =>
    rw [compileSegment_of_none hf]
    split_ifs with hopen
    · refine ⟨?_, ?_⟩
      · intro h
        nomatch h
      · rintro ⟨-, h, -⟩
        rw [hopen] at h
        nomatch h
    · rw [bind_eq_ok_iff]
      refine ⟨?_, ?_⟩
      · rintro ⟨ls, hls, h⟩
        obtain ⟨bs, hbs, h⟩ := bind_eq_ok_iff.1 h
        cases h
        exact ⟨rfl, by simpa using hopen, ls, hls, hbs⟩
      · rintro ⟨-, -, ls, hls, hbs⟩
        exact ⟨ls, hls, bind_eq_ok_iff.2 ⟨g.beats, hbs, rfl⟩⟩

/-! ### Laying out -/

theorem layoutsFrom_cons (n : Nat) (m : BeatMarks) {t : Token} (h : t ≠ .beatEnd)
    (ts : List Token) : layoutsFrom juggler s n m (t :: ts) = (do
      let m ← located juggler n (m.next t)
      layoutsFrom juggler s n m ts) := by
  cases t <;> first | rfl | exact absurd rfl h

/-- The marks after the tokens of a beat. -/
def BeatMarks.run (m : BeatMarks) (ts : List Token) : Except Violation BeatMarks :=
  ts.foldlM BeatMarks.next m

theorem run_cons (m : BeatMarks) (t : Token) (ts : List Token) :
    m.run (t :: ts) = m.next t >>= fun m => m.run ts := rfl

theorem layoutsFrom_append (juggler : Int) (s : Scan) (n : Nat) (m : BeatMarks) {cur : List Token}
    (h : .beatEnd ∉ cur) (ts : List Token) : layoutsFrom juggler s n m (cur ++ ts) = (do
      let m ← located juggler n (m.run cur)
      layoutsFrom juggler s n m ts) := by
  induction cur generalizing m with
  | nil => rfl
  | cons t cur ih =>
    rw [List.mem_cons, not_or] at h
    rw [List.cons_append, layoutsFrom_cons n m (Ne.symm h.1), run_cons]
    cases m.next t with
    | error v => rfl
    | ok m' => exact ih m' h.2

theorem run_waypoints {ws : List Token} (h : Waypoints ws) (m : BeatMarks) :
    m.run ws = .ok { m with count := m.count + ws.length } := by
  induction ws generalizing m with
  | nil => rfl
  | cons t ws ih =>
    obtain ⟨ht, hws⟩ := List.forall_mem_cons.1 h
    have hnext : m.next t = .ok m.waypoint := by
      cases t <;> first | rfl | exact nomatch ht
    rw [run_cons, hnext]
    refine (ih hws m.waypoint).trans ?_
    simp [BeatMarks.waypoint, Nat.add_assoc, Nat.add_comm 1]

theorem run_optionalThrow {ts : List Token} (h : OptionalThrow ts) :
    BeatMarks.start.run ts = .ok ⟨0, !ts.isEmpty, none⟩ := by
  rcases h with rfl | ⟨small, rfl⟩ <;> rfl

theorem run_append (m : BeatMarks) (ts us : List Token) :
    m.run (ts ++ us) = m.run ts >>= fun m => m.run us := List.foldlM_append

/-- The marks run over the tokens of a beat exactly if these keep the rules. -/
theorem run_start_eq_ok_iff {cur : List Token} (hend : .beatEnd ∉ cur) {m : BeatMarks} :
    BeatMarks.start.run cur = .ok m ↔ Shape cur m := by
  refine ⟨?_, ?_⟩
  · intro h
    -- From the end: `Shape` is the invariant, kept by every token that the marks accept.
    induction cur using List.reverseRecOn generalizing m with
    | nil =>
      cases h
      exact .start
    | append_singleton cur t ih =>
      rw [List.mem_append, not_or, List.mem_singleton] at hend
      rw [run_append] at h
      obtain ⟨m', hm', h⟩ := bind_eq_ok_iff.1 h
      obtain ⟨m'', hm'', h⟩ := bind_eq_ok_iff.1 h
      cases h
      rcases (ih hend.1 hm').next (Ne.symm hend.2) with ⟨v, -, hv⟩ | ⟨-, m₁, hm₁, hshape⟩
      · rw [hv] at hm''
        exact nomatch hm''
      · rw [hm₁] at hm''
        cases hm''
        exact hshape
  · intro h
    cases h with
    -- Conversely, the parts of a shape are run one after the other.
    | @unmarked throw ws ht hw =>
      rw [run_append, run_optionalThrow ht]
      refine (run_waypoints hw _).trans ?_
      simp
    | @marked throw before after small ht hb hne ha =>
      have hcount : before.length ≠ 0 := by simpa using hne
      rw [run_append, run_optionalThrow ht]
      show BeatMarks.run ⟨0, _, none⟩ (before ++ _) = _
      rw [run_append, run_waypoints hb]
      show BeatMarks.run ⟨0 + before.length, _, none⟩ (_ :: after) = _
      rw [run_cons, BeatMarks.next, BeatMarks.catchMark, if_neg (by simpa using hne),
        if_neg (by simp)]
      refine (run_waypoints ha _).trans ?_
      simp

theorem located_eq_ok_iff {n : Nat} {α : Type} {r : Except Violation α} {a : α} :
    located juggler n r = .ok a ↔ r = .ok a := by
  cases r with
  | error v =>
    refine ⟨?_, ?_⟩
    · intro h
      nomatch h
    · intro h
      nomatch h
  | ok a' => exact ⟨fun h => congrArg Except.ok (Except.ok.inj h),
      fun h => congrArg Except.ok (Except.ok.inj h)⟩

/-- Tokens without an end are laid out exactly if they keep the rules; they have no layout. -/
theorem layoutsFrom_tail_eq_ok_iff (hs : s.fault = none) {n : Nat} {ts : List Token}
    (hend : .beatEnd ∉ ts) {ls : List BeatLayout} :
    layoutsFrom juggler s n .start ts = .ok ls ↔ (∃ m, Shape ts m) ∧ ls = [] := by
  have hlay := layoutsFrom_append juggler s n .start hend []
  rw [List.append_nil] at hlay
  rw [hlay, bind_eq_ok_iff]
  refine ⟨?_, ?_⟩
  · rintro ⟨m, hm, h⟩
    rw [layoutsFrom, finish_of_none hs] at h
    exact ⟨⟨m, (run_start_eq_ok_iff hend).1 (located_eq_ok_iff.1 hm)⟩, (Except.ok.inj h).symm⟩
  · rintro ⟨⟨m, hm⟩, rfl⟩
    refine ⟨m, located_eq_ok_iff.2 ((run_start_eq_ok_iff hend).2 hm), ?_⟩
    rw [layoutsFrom, finish_of_none hs]

/-- A beat and what follows it are laid out exactly if the beat may end there and what follows is
laid out. -/
theorem layoutsFrom_beat_eq_ok_iff {n : Nat} {cur ts : List Token} (hend : .beatEnd ∉ cur)
    {ls : List BeatLayout} : layoutsFrom juggler s n .start (cur ++ .beatEnd :: ts) = .ok ls ↔
      ∃ m layout ls', Shape cur m ∧ m.close = .ok layout ∧
        layoutsFrom juggler s (n + 1) .start ts = .ok ls' ∧ ls = layout :: ls' := by
  rw [layoutsFrom_append juggler s n .start hend, bind_eq_ok_iff]
  refine ⟨?_, ?_⟩
  · rintro ⟨m, hm, h⟩
    obtain ⟨layout, hlayout, h⟩ := bind_eq_ok_iff.1 h
    obtain ⟨ls', hls', h⟩ := bind_eq_ok_iff.1 h
    exact ⟨m, layout, ls', (run_start_eq_ok_iff hend).1 (located_eq_ok_iff.1 hm),
      located_eq_ok_iff.1 hlayout, hls', (Except.ok.inj h).symm⟩
  · rintro ⟨m, layout, ls', hm, hlayout, hls', rfl⟩
    refine ⟨m, located_eq_ok_iff.2 ((run_start_eq_ok_iff hend).2 hm), ?_⟩
    refine bind_eq_ok_iff.2 ⟨layout, located_eq_ok_iff.2 hlayout, ?_⟩
    exact bind_eq_ok_iff.2 ⟨ls', hls', rfl⟩

/-! ### Filling -/

/-- A waypoint denotes a coordinate, or is left open. -/
inductive Denotes : Token → Option Coordinate → Prop
  | blank : Denotes .blank none
  | group {inside : List Char} {c : Coordinate} : GroupText inside c →
      Denotes (.group inside) (some c)

/-- The waypoints among tokens, read in order. -/
def readWaypoints (juggler : Int) (n : Nat) :
    List Token → Except Failure (List (Option Coordinate))
  | [] => .ok []
  | .blank :: ts => do return none :: (← readWaypoints juggler n ts)
  | .group inside :: ts => do
    let c ← readGroup inside juggler (some (n : Int))
    return some c :: (← readWaypoints juggler n ts)
  | _ :: ts => readWaypoints juggler n ts

theorem beatsFrom_append (juggler : Int) (s : Scan) (n : Nat) (ws : List (Option Coordinate))
    (ls : List BeatLayout) {cur : List Token} (h : .beatEnd ∉ cur) (ts : List Token) :
    beatsFrom juggler s n ws ls (cur ++ ts) = (do
      let vs ← readWaypoints juggler n cur
      beatsFrom juggler s n (vs.reverse ++ ws) ls ts) := by
  -- `ws` holds in reverse what has been read so far, so it varies in the induction.
  induction cur generalizing ws with
  | nil => rfl
  | cons t cur ih =>
    rw [List.mem_cons, not_or] at h
    cases t with
    | beatEnd => exact absurd rfl h.1
    | throwMark small => simpa [beatsFrom, readWaypoints] using ih ws h.2
    | catchMark small => simpa [beatsFrom, readWaypoints] using ih ws h.2
    | blank =>
      rw [List.cons_append, beatsFrom, ih _ h.2, readWaypoints]
      cases readWaypoints juggler n cur with
      | error f => rfl
      | ok vs =>
        show beatsFrom _ _ _ _ _ _ = beatsFrom _ _ _ _ _ _
        rw [List.reverse_cons, List.append_assoc]
        rfl
    | group inside =>
      rw [List.cons_append, beatsFrom, readWaypoints]
      cases readGroup inside juggler (some (n : Int)) with
      | error f => rfl
      | ok c =>
        show beatsFrom _ _ _ _ _ _ = _
        rw [ih _ h.2]
        cases readWaypoints juggler n cur with
        | error f => rfl
        | ok vs =>
          show beatsFrom _ _ _ _ _ _ = beatsFrom _ _ _ _ _ _
          rw [List.reverse_cons, List.append_assoc]
          rfl

theorem readWaypoints_eq_ok_iff {n : Nat} {ts : List Token} {vs : List (Option Coordinate)} :
    readWaypoints juggler n ts = .ok vs ↔ List.Forall₂ Denotes (ts.filter isWaypoint) vs := by
  induction ts generalizing vs with
  | nil =>
    rw [List.filter_nil, List.forall₂_nil_left_iff]
    exact ⟨fun h => (Except.ok.inj h).symm, fun h => congrArg Except.ok h.symm⟩
  | cons t ts ih =>
    cases t with
    | beatEnd => exact ih
    | throwMark small => exact ih
    | catchMark small => exact ih
    | blank =>
      rw [readWaypoints, bind_eq_ok_iff, List.filter_cons_of_pos (by rfl),
        List.forall₂_cons_left_iff]
      refine ⟨?_, ?_⟩
      · rintro ⟨vs', h, h'⟩
        exact ⟨none, vs', .blank, ih.1 h, (Except.ok.inj h').symm⟩
      · rintro ⟨v, vs', hv, h, rfl⟩
        cases hv
        exact ⟨vs', ih.2 h, rfl⟩
    | group inside =>
      rw [readWaypoints, bind_eq_ok_iff, List.filter_cons_of_pos (by rfl),
        List.forall₂_cons_left_iff]
      refine ⟨?_, ?_⟩
      · rintro ⟨c, hc, h⟩
        obtain ⟨vs', h, h'⟩ := bind_eq_ok_iff.1 h
        exact ⟨some c, vs', .group (readGroup_eq_ok_iff.1 hc), ih.1 h, (Except.ok.inj h').symm⟩
      · rintro ⟨v, vs', hv, h, rfl⟩
        cases hv with
        | group hc => exact ⟨_, readGroup_eq_ok_iff.2 hc, bind_eq_ok_iff.2 ⟨vs', ih.2 h, rfl⟩⟩

theorem require_eq_ok_iff {v : Violation} {n : Nat} {ws : List (Option Coordinate)} {i : Nat} :
    require v juggler n ws i = .ok () ↔ ∃ c, ws[i]? = some (some c) := by
  rw [require]
  split <;> simp_all

/-- A beat is closed exactly if its throw and its catch have coordinates. -/
theorem closeBeat_eq_ok_iff {n : Nat} {layout : BeatLayout} {ws : List (Option Coordinate)}
    {b : Beat} : closeBeat juggler n layout ws = .ok b ↔
      (∃ c, ws[0]? = some (some c)) ∧ (∃ c, ws[layout.catchIndex]? = some (some c)) ∧
        b = ⟨ws, layout.catchIndex⟩ := by
  rw [closeBeat, bind_eq_ok_iff]
  refine ⟨?_, ?_⟩
  · rintro ⟨_, h0, h⟩
    obtain ⟨_, hk, h⟩ := bind_eq_ok_iff.1 h
    exact ⟨require_eq_ok_iff.1 h0, require_eq_ok_iff.1 hk, (Except.ok.inj h).symm⟩
  · rintro ⟨h0, hk, rfl⟩
    exact ⟨(), require_eq_ok_iff.2 h0, bind_eq_ok_iff.2 ⟨(), require_eq_ok_iff.2 hk, rfl⟩⟩

/-- Tokens without an end are filled exactly if their groups can be read; they give no beat. -/
theorem beatsFrom_tail_eq_ok_iff (hs : s.fault = none) {n : Nat} {ls : List BeatLayout}
    {ts : List Token} (hend : .beatEnd ∉ ts) {bs : List Beat} :
    beatsFrom juggler s n [] ls ts = .ok bs ↔
      (∃ vs, List.Forall₂ Denotes (ts.filter isWaypoint) vs) ∧ bs = [] := by
  have hfill := beatsFrom_append juggler s n [] ls hend []
  rw [List.append_nil] at hfill
  rw [hfill, bind_eq_ok_iff]
  refine ⟨?_, ?_⟩
  · rintro ⟨vs, hvs, h⟩
    rw [beatsFrom, finish_of_none hs] at h
    exact ⟨⟨vs, readWaypoints_eq_ok_iff.1 hvs⟩, (Except.ok.inj h).symm⟩
  · rintro ⟨⟨vs, hvs⟩, rfl⟩
    refine ⟨vs, readWaypoints_eq_ok_iff.2 hvs, ?_⟩
    rw [beatsFrom, finish_of_none hs]

/-- A beat and what follows it are filled exactly if the waypoints of the beat can be read, those
of its throw and its catch have coordinates, and what follows is filled. -/
theorem beatsFrom_beat_eq_ok_iff {n : Nat} {layout : BeatLayout} {ls : List BeatLayout}
    {cur ts : List Token} (hend : .beatEnd ∉ cur) {bs : List Beat} :
    beatsFrom juggler s n [] (layout :: ls) (cur ++ .beatEnd :: ts) = .ok bs ↔
      ∃ vs b bs', List.Forall₂ Denotes (cur.filter isWaypoint) vs ∧
        closeBeat juggler n layout vs = .ok b ∧
        beatsFrom juggler s (n + 1) [] ls ts = .ok bs' ∧ bs = b :: bs' := by
  rw [beatsFrom_append juggler s n [] _ hend, bind_eq_ok_iff]
  refine ⟨?_, ?_⟩
  · rintro ⟨vs, hvs, h⟩
    rw [beatsFrom, List.append_nil, List.reverse_reverse] at h
    obtain ⟨b, hb, h⟩ := bind_eq_ok_iff.1 h
    obtain ⟨bs', hbs', h⟩ := bind_eq_ok_iff.1 h
    exact ⟨vs, b, bs', readWaypoints_eq_ok_iff.1 hvs, hb, hbs', (Except.ok.inj h).symm⟩
  · rintro ⟨vs, b, bs', hvs, hb, hbs', rfl⟩
    refine ⟨vs, readWaypoints_eq_ok_iff.2 hvs, ?_⟩
    rw [beatsFrom, List.append_nil, List.reverse_reverse]
    exact bind_eq_ok_iff.2 ⟨b, hb, bind_eq_ok_iff.2 ⟨bs', hbs', rfl⟩⟩

end HandPath.Notation
