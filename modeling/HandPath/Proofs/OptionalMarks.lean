import HandPath.Proofs.Juxtaposition
import Mathlib.Data.List.Basic
import Mathlib.Logic.Relation

/-!
# HandPath.Proofs.OptionalMarks — marks that can be written or left out

A beat is its waypoints and the number of the one it is caught at.  Its tokens say this in one of a
few ways (`beatTokens_iff_written`): the throw mark is optional, and so is a catch mark before the
last waypoint.  `MarkEdit` lists the ways to put in or take out such a mark in a segment text, and
`CatchMove` moves a catch mark within its beat.  Either changes the tokens of one beat only, so what
it does to that beat it does to the segment (`compileSegment_modify`).

Main statement (`compileSegment_of_markEdits`): a segment that compiles still compiles to the same
beats after any number of the former, and after one of the latter to beats of which one is caught at
another place.
-/

namespace HandPath.Notation

open Token

variable {cur cur' rest rest' ways body : List Token} {b : Beat} {bs : List Beat} {k : Nat}

/-! ### How a beat is written -/

/-- The waypoints with a catch mark before number `k` of them, or without one if `k` is the last. -/
inductive CatchWritten (ways : List Token) (k : Nat) : List Token → Prop
  | implicit : k + 1 = ways.length → CatchWritten ways k ways
  | explicit (small : Bool) : CatchWritten ways k (ways.take k ++ .catchMark small :: ways.drop k)

theorem catchWritten_append (small : Bool) (vs ws : List Token) :
    CatchWritten (vs ++ ws) vs.length (vs ++ .catchMark small :: ws) := by
  have h : CatchWritten (vs ++ ws) vs.length _ := .explicit small
  rwa [List.take_left, List.drop_left] at h

/-- The beat has the waypoints that the tokens denote, and is caught at number `k` of them. -/
structure CaughtAt (ways : List Token) (k : Nat) (b : Beat) : Prop where
  denotes : List.Forall₂ Denotes ways b.waypoints
  one_le : 1 ≤ k
  lt : k < ways.length
  throws : ∃ c, b.waypoints[0]? = some (some c)
  catches : ∃ c, b.waypoints[k]? = some (some c)
  catchIndex : b.catchIndex = k

theorem CaughtAt.beatTokens {throw : List Token} (h : CaughtAt ways k b)
    (hthrow : OptionalThrow throw) (hbody : CatchWritten ways k body) :
    BeatTokens (throw ++ body) b := by
  obtain ⟨hden, hone, hlt, h0, hk, hcatch⟩ := h
  obtain ⟨ws, catchIndex⟩ := b
  dsimp only at hden h0 hk hcatch
  subst hcatch
  have hlength := hden.length_eq
  cases hbody with
  | implicit hlast =>
    obtain rfl : k = ws.length - 1 := by omega
    exact .unmarked hthrow hden (by omega) h0 hk
  | explicit small =>
    -- The mark cuts the waypoints and what they denote at the same place.
    have htake : List.Forall₂ Denotes (ways.take k) (ws.take k) := List.forall₂_take k hden
    have hdrop : List.Forall₂ Denotes (ways.drop k) (ws.drop k) := List.forall₂_drop k hden
    have hsplit := List.take_append_drop k ws
    have hplace : (ws.take k).length = k := List.length_take_of_le (by omega)
    have hbeat := BeatTokens.marked small hthrow htake hdrop (by omega)
      (by rw [hsplit]; omega) (by rwa [hsplit]) (by rwa [hsplit, hplace])
    rwa [hsplit, hplace] at hbeat

/-- The tokens of a beat are a way to write it. -/
theorem beatTokens_iff_written : BeatTokens cur b ↔
    ∃ throw body ways k, cur = throw ++ body ∧ OptionalThrow throw ∧ CatchWritten ways k body ∧
      CaughtAt ways k b := by
  refine ⟨?_, ?_⟩
  · rintro ⟨⟨m, hshape⟩, hfine, hden, h0, hk, hcatch⟩
    obtain ⟨htwo, hafter⟩ := hshape.fine_iff.1 hfine
    have hplace := hshape.catchPlace_eq
    rw [hplace] at hk hcatch
    -- Either shape tells the place of the catch: the last waypoint, or the one that is marked.
    cases hshape with
    | @unmarked throw ways hthrow hways =>
      rw [Shape.filter_unmarked hthrow hways] at hden
      dsimp only [Option.getD_none] at hk hcatch htwo
      exact ⟨throw, ways, ways, ways.length - 1, rfl, hthrow, .implicit (by omega),
        hden, by omega, by omega, h0, hk, hcatch⟩
    | @marked throw before after small hthrow hb hne ha =>
      rw [Shape.filter_marked hthrow hb ha] at hden
      dsimp only [Option.getD_some] at hk hcatch
      have hlt := hafter _ rfl
      exact ⟨throw, _, before ++ after, before.length, rfl, hthrow, catchWritten_append ..,
        hden, List.length_pos_iff.2 hne, by rwa [List.length_append], h0, hk, hcatch⟩
  · rintro ⟨throw, body, ways, k, rfl, hthrow, hbody, hb⟩
    exact hb.beatTokens hthrow hbody

theorem CaughtAt.waypoints (h : CaughtAt ways k b) : Waypoints ways :=
  waypoints_of_denotes h.denotes

/-- A catch mark stands in an explicit body only, once. -/
theorem CatchWritten.eq_of_catchMark {small : Bool} (hways : Waypoints ways)
    (h : CatchWritten ways k (cur ++ .catchMark small :: rest)) :
    cur = ways.take k ∧ rest = ways.drop k := by
  have hnot : ∀ {small : Bool}, .catchMark small ∉ ways := fun hmem => nomatch hways _ hmem
  generalize hbody : cur ++ .catchMark small :: rest = body at h
  -- No waypoint is a catch mark, so that the body can be cut at its mark in one way only.
  cases h with
  | implicit => exact absurd (hbody ▸ List.mem_append_cons_self) hnot
  | explicit =>
    have htake : .catchMark small ∉ ways.take k := fun h => hnot (List.mem_of_mem_take h)
    have hdrop : .catchMark small ∉ ways.drop k := fun h => hnot (List.mem_of_mem_drop h)
    obtain ⟨hcur, -, hrest⟩ := (List.append_cons_inj_of_notMem htake hdrop).1 hbody.symm
    exact ⟨hcur.symm, hrest.symm⟩

/-- Without a catch mark the last waypoint is meant. -/
theorem CatchWritten.eq_of_any_eq_false (h : CatchWritten ways k body)
    (hno : body.any isCatch = false) : body = ways ∧ k + 1 = ways.length := by
  cases h with
  | implicit hlast => exact ⟨rfl, hlast⟩
  | explicit small =>
    rw [List.any_append, List.any_cons] at hno
    simp [isCatch] at hno

theorem CatchWritten.throwMark_not_mem {small : Bool} (hways : Waypoints ways)
    (h : CatchWritten ways k body) : .throwMark small ∉ body := by
  have hnot : .throwMark small ∉ ways := fun hmem => nomatch hways _ hmem
  cases h with
  | implicit => exact hnot
  | explicit =>
    rw [List.mem_append, List.mem_cons]
    rintro (hmem | heq | hmem)
    · exact hnot (List.mem_of_mem_take hmem)
    · nomatch heq
    · exact hnot (List.mem_of_mem_drop hmem)

/-- A throw mark stands before all other tokens of its beat. -/
theorem OptionalThrow.exists_append {throw : List Token} {t : Token} (hthrow : OptionalThrow throw)
    (ht : t.isThrow = false) (h : cur ++ t :: rest = throw ++ body) :
    ∃ init, cur = throw ++ init ∧ body = init ++ t :: rest := by
  rcases hthrow with rfl | ⟨small, rfl⟩
  · exact ⟨cur, rfl, h.symm⟩
  · cases cur with
    | nil =>
      obtain ⟨rfl, -⟩ := List.cons_eq_cons.1 h
      nomatch ht
    | cons u init =>
      obtain ⟨rfl, hbody⟩ := List.cons_eq_cons.1 h
      exact ⟨init, rfl, hbody.symm⟩

theorem OptionalThrow.eq_nil {ts : List Token} (h : OptionalThrow ts)
    (hno : ts.any isThrow = false) : ts = [] := by
  simpa [h.any_isThrow] using hno

theorem OptionalThrow.of_throwMark {small : Bool}
    (h : OptionalThrow (cur ++ .throwMark small :: rest)) : OptionalThrow (cur ++ rest) := by
  rcases h with hnil | ⟨small', hone⟩
  · simp at hnil
  · obtain ⟨rfl, hrest⟩ | ⟨-, hrest⟩ := List.append_eq_singleton_iff.1 hone
    · exact .inl (List.cons_eq_cons.1 hrest).2
    · nomatch hrest

theorem not_optionalThrow_append {t : Token} (ht : t.isThrow = false) :
    ¬ OptionalThrow (cur ++ t :: rest) := by
  intro h
  obtain ⟨init, -, hnil⟩ := h.exists_append ht (List.append_nil _).symm
  simp at hnil

/-! ### Writing a beat in another way -/

theorem BeatTokens.of_throwMark {small : Bool}
    (h : BeatTokens (cur ++ .throwMark small :: rest) b) : BeatTokens (cur ++ rest) b := by
  obtain ⟨throw, body, ways, k, heq, hthrow, hbody, hb⟩ := beatTokens_iff_written.1 h
  have hnot : .throwMark small ∉ body := hbody.throwMark_not_mem hb.waypoints
  -- The body holds no throw mark, so that the one left out is the leading one.
  rcases hthrow with rfl | ⟨small', rfl⟩
  · obtain rfl : cur ++ .throwMark small :: rest = body := heq
    exact absurd List.mem_append_cons_self hnot
  · cases cur with
    | nil =>
      obtain ⟨-, rfl⟩ := List.cons_eq_cons.1 heq
      exact hb.beatTokens (.inl rfl) hbody
    | cons t cur =>
      obtain ⟨-, rfl⟩ := List.cons_eq_cons.1 heq
      exact absurd List.mem_append_cons_self hnot

theorem BeatTokens.cons_throwMark (small : Bool) (hno : cur.any isThrow = false)
    (h : BeatTokens cur b) : BeatTokens (.throwMark small :: cur) b := by
  obtain ⟨throw, body, ways, k, rfl, hthrow, hbody, hb⟩ := beatTokens_iff_written.1 h
  rw [List.any_append, hthrow.any_isThrow, Bool.or_eq_false_iff] at hno
  obtain rfl : throw = [] := by simpa using hno.1
  exact hb.beatTokens (.inr ⟨small, rfl⟩) hbody

/-- A catch mark parts the waypoints at the place of the catch. -/
theorem BeatTokens.exists_of_catchMark {small : Bool}
    (h : BeatTokens (cur ++ .catchMark small :: rest) b) :
    ∃ throw ways k, OptionalThrow throw ∧ CaughtAt ways k b ∧ cur = throw ++ ways.take k ∧
      rest = ways.drop k := by
  obtain ⟨throw, body, ways, k, heq, hthrow, hbody, hb⟩ := beatTokens_iff_written.1 h
  obtain ⟨init, rfl, rfl⟩ := hthrow.exists_append rfl heq
  obtain ⟨rfl, rfl⟩ := hbody.eq_of_catchMark hb.waypoints
  exact ⟨throw, ways, k, hthrow, hb, rfl, rfl⟩

theorem BeatTokens.of_catchMark_last {small : Bool} {t : Token}
    (h : BeatTokens (cur ++ [.catchMark small, t]) b) : BeatTokens (cur ++ [t]) b := by
  obtain ⟨throw, ways, k, hthrow, hb, rfl, hrest⟩ := h.exists_of_catchMark
  have hlast : k + 1 = ways.length := by
    have hlength := congrArg List.length hrest
    have hlt := hb.lt
    rw [List.length_drop, List.length_singleton] at hlength
    omega
  rw [hrest, List.append_assoc, List.take_append_drop]
  exact hb.beatTokens hthrow (.implicit hlast)

theorem BeatTokens.catchMark_last (small : Bool) {t : Token} (hno : cur.any isCatch = false)
    (ht : t.isWaypoint = true) (h : BeatTokens (cur ++ [t]) b) :
    BeatTokens (cur ++ [.catchMark small, t]) b := by
  obtain ⟨throw, body, ways, k, heq, hthrow, hbody, hb⟩ := beatTokens_iff_written.1 h
  obtain ⟨init, rfl, rfl⟩ := hthrow.exists_append (isThrow_of_isWaypoint t ht) heq
  rw [List.any_append, Bool.or_eq_false_iff] at hno
  obtain ⟨rfl, hlast⟩ := hbody.eq_of_any_eq_false
    (by rw [List.any_append, hno.2, List.any_cons, isCatch_of_isWaypoint t ht]; rfl)
  obtain rfl : k = init.length := by simpa using hlast
  rw [List.append_assoc]
  exact hb.beatTokens hthrow (catchWritten_append small init [t])

/-- The catch mark of a beat can stand before any group but the first waypoint. -/
theorem BeatTokens.move_catchMark {small : Bool} {inside : List Char}
    (h : BeatTokens (cur ++ .catchMark small :: rest) b)
    (heq : cur ++ rest = cur' ++ .group inside :: rest') (hone : 1 ≤ cur'.countP isWaypoint) :
    BeatTokens (cur' ++ .catchMark small :: .group inside :: rest')
      { b with catchIndex := cur'.countP isWaypoint } := by
  obtain ⟨throw, ways, k, hthrow, hb, rfl, rfl⟩ := h.exists_of_catchMark
  rw [List.append_assoc, List.take_append_drop] at heq
  obtain ⟨init, rfl, rfl⟩ := hthrow.exists_append rfl heq.symm
  have hinit : Waypoints init := (List.forall_mem_append.1 hb.waypoints).1
  rw [List.countP_append, hthrow.countP, hinit.countP, Nat.zero_add] at hone ⊢
  have hlt : init.length < (init ++ .group inside :: rest').length := by simp
  -- The waypoint at the new place is a group, and a group denotes a coordinate.
  have hcatch : ∃ c, b.waypoints[init.length]? = some (some c) := by
    rcases leftOpen_of_denotes hb.denotes hlt with ⟨hblank, -⟩ | ⟨-, hc⟩
    · rw [List.getElem?_append_right (Nat.le_refl _), Nat.sub_self] at hblank
      nomatch hblank
    · exact hc
  have hmoved : CaughtAt (init ++ .group inside :: rest') init.length
      { b with catchIndex := init.length } := ⟨hb.denotes, hone, hlt, hb.throws, hcatch, rfl⟩
  rw [List.append_assoc]
  exact hmoved.beatTokens hthrow (catchWritten_append small init _)

/-! ### One beat of a segment -/

/-- The tokens up to the next end. -/
def restOfBeat (ts : List Token) : List Token := ts.takeWhile (· ≠ .beatEnd)

theorem restOfBeat_append_of_not_mem {ts : List Token} (hend : .beatEnd ∉ ts) (vs : List Token) :
    restOfBeat (ts ++ vs) = ts ++ restOfBeat vs :=
  List.takeWhile_append_of_pos fun t ht => by simpa using ne_of_mem_of_not_mem ht hend

theorem exists_restOfBeat (vs : List Token) : .beatEnd ∉ restOfBeat vs ∧
    ∃ later, vs = restOfBeat vs ++ later ∧ (later = [] ∨ ∃ ts, later = .beatEnd :: ts) := by
  refine ⟨fun h => by simpa using List.mem_takeWhile_imp h, _,
    List.takeWhile_append_dropWhile.symm, ?_⟩
  cases hlater : vs.dropWhile (· ≠ .beatEnd) with
  | nil => exact .inl rfl
  | cons t ts =>
    have hhead := List.head?_dropWhile_not (· ≠ .beatEnd) vs
    rw [hlater] at hhead
    obtain rfl : t = .beatEnd := by simpa using hhead
    exact .inr ⟨ts, rfl⟩

/-- Other tokens can stand in the place of those of a beat, or of those after the last end. -/
theorem SegmentTokens.focus {whole cur later : List Token}
    (h : SegmentTokens (whole ++ (cur ++ later)) bs) (hwhole : currentBeat whole = [])
    (hcur : .beatEnd ∉ cur) (hlater : later = [] ∨ ∃ ts, later = .beatEnd :: ts) :
    (OptionalThrow cur ∧
      ∀ cur', OptionalThrow cur' → SegmentTokens (whole ++ (cur' ++ later)) bs) ∨
    ∃ as b cs, bs = as ++ b :: cs ∧ as.length = ends whole ∧ BeatTokens cur b ∧
      ∀ cur' b', BeatTokens cur' b' →
        SegmentTokens (whole ++ (cur' ++ later)) (as ++ b' :: cs) := by
  obtain ⟨as, bs', has, hbs', rfl⟩ := (segmentTokens_append_iff hwhole).1 h
  -- The place is after the last end, or in the beat that the next end closes.
  rcases hlater with rfl | ⟨ts, rfl⟩
  · rw [List.append_nil] at hbs'
    obtain ⟨hthrow, rfl⟩ := (segmentTokens_tail_iff hcur).1 hbs'
    refine .inl ⟨hthrow, fun cur' hthrow' => ?_⟩
    rw [List.append_nil]
    exact (segmentTokens_append_iff hwhole).2 ⟨as, [], has, .trailing hthrow', rfl⟩
  · obtain ⟨b, cs, hb, hcs, rfl⟩ := (segmentTokens_beat_iff hcur).1 hbs'
    refine .inr ⟨as, b, cs, rfl, has.ends_eq.symm, hb, fun cur' b' hb' => ?_⟩
    exact (segmentTokens_append_iff hwhole).2 ⟨as, b' :: cs, has, .beat hb' hcs, rfl⟩

/-! ### One beat of a segment text -/

/-- The tokens of the beat that the text ends in. -/
def beatBefore (before : List Char) : List Token := currentBeat (scan before).tokens

/-- The tokens of the beat that the text begins in. -/
def beatAfter (after : List Char) : List Token := restOfBeat (scan after).tokens

/-- The tokens of the beat that a part of a text stands in. -/
def beatAround (before mid after : List Char) : List Token :=
  beatBefore before ++ ((scan mid).tokens ++ beatAfter after)

variable {juggler : Int} {g : Segment} {before mid after : List Char}

/-- Another text can stand in the place of a part of a beat, or of what follows the last end. -/
theorem compileSegment_focus (h : compileSegment juggler (before ++ (mid ++ after)) = .ok g)
    (hbefore : groupOpen before = false) (hmid : (scan mid).fault = none)
    (hend : .beatEnd ∉ (scan mid).tokens) :
    (OptionalThrow (beatAround before mid after) ∧
      ∀ mid', (scan mid').fault = none → OptionalThrow (beatAround before mid' after) →
        compileSegment juggler (before ++ (mid' ++ after)) = .ok g) ∨
    ∃ as b cs, g.beats = as ++ b :: cs ∧ as.length = points before ∧
      BeatTokens (beatAround before mid after) b ∧
      ∀ mid' b', (scan mid').fault = none → BeatTokens (beatAround before mid' after) b' →
        compileSegment juggler (before ++ (mid' ++ after)) = .ok ⟨as ++ b' :: cs⟩ := by
  obtain ⟨hfault, htokens⟩ := compileSegment_eq_ok_iff_tokens.1 h
  obtain ⟨hscan, -⟩ := fault_eq_none_of_append hfault hbefore
  -- Parts that scan without a fault are scanned one by one.
  have hwritten : ∀ mid', (scan mid').fault = none → scan (before ++ (mid' ++ after)) =
      ⟨(scan before).tokens ++ ((scan mid').tokens ++ (scan after).tokens),
        (scan after).fault⟩ := by
    intro mid' hmid'
    rw [scan_append hscan, scan_append hmid']
  -- The tokens are cut at the last end before the place and at the next one after it.
  obtain ⟨whole, hus, hwhole, hends⟩ := exists_currentBeat (scan before).tokens
  obtain ⟨hrest, later, hvs, hlater⟩ := exists_restOfBeat (scan after).tokens
  have hbeats : ∀ mid' : List Char,
      (scan before).tokens ++ ((scan mid').tokens ++ (scan after).tokens) =
        whole ++ (beatAround before mid' after ++ later) := by
    intro mid'
    rw [beatAround, beatBefore, beatAfter, List.append_assoc, List.append_assoc, ← hvs,
      ← List.append_assoc whole, ← hus]
  have hnone : (scan after).fault = none := by
    rwa [hwritten mid hmid] at hfault
  -- Another text may stand in the place of `mid` if the grammar takes its tokens there.
  have hcompiles : ∀ mid' g', (scan mid').fault = none →
      SegmentTokens (whole ++ (beatAround before mid' after ++ later)) g'.beats →
        compileSegment juggler (before ++ (mid' ++ after)) = .ok g' := by
    intro mid' g' hmid' htokens'
    rw [compileSegment_eq_ok_iff_tokens, hwritten mid' hmid', hbeats]
    exact ⟨hnone, htokens'⟩
  rw [hwritten mid hmid, hbeats] at htokens
  have hcur : .beatEnd ∉ beatAround before mid after := by
    rw [beatAround, List.mem_append, List.mem_append, not_or, not_or]
    exact ⟨beatEnd_not_mem_currentBeat _, hend, hrest⟩
  rcases htokens.focus hwhole hcur hlater with ⟨hthrow, hall⟩ | ⟨as, b, cs, hbs, hlength, hb, hall⟩
  · exact .inl ⟨hthrow, fun mid' hmid' hthrow' => hcompiles mid' g hmid' (hall _ hthrow')⟩
  · refine .inr ⟨as, b, cs, hbs, ?_, hb, fun mid' b' hmid' hb' => ?_⟩
    · rw [hlength, hends, points_eq_ends hscan]
    · exact hcompiles mid' ⟨as ++ b' :: cs⟩ hmid' (hall _ _ hb')

/-- A beat may be written in another way. -/
theorem compileSegment_rewrite (mid mid' : List Char)
    (h : compileSegment juggler (before ++ (mid ++ after)) = .ok g)
    (hbefore : groupOpen before = false) (hmid : (scan mid).fault = none)
    (hend : .beatEnd ∉ (scan mid).tokens) (hmid' : (scan mid').fault = none)
    (hthrow : OptionalThrow (beatAround before mid after) →
      OptionalThrow (beatAround before mid' after))
    (hbeat : ∀ b, BeatTokens (beatAround before mid after) b →
      BeatTokens (beatAround before mid' after) b) :
    compileSegment juggler (before ++ (mid' ++ after)) = .ok g := by
  rcases compileSegment_focus h hbefore hmid hend with ⟨ht, hall⟩ | ⟨as, b, cs, hg, -, hb, hall⟩
  · exact hall mid' hmid' (hthrow ht)
  · obtain ⟨bs⟩ := g
    obtain rfl : bs = as ++ b :: cs := hg
    exact hall mid' b hmid' (hbeat b hb)

/-! ### Putting marks in and taking them out -/

/-- A mark that can be left out is put into a segment text or taken out of it. -/
inductive MarkEdit : List Char → List Char → Prop
  | dropThrow (before after : List Char) {c : Char} : c = 'T' ∨ c = 't' →
      groupOpen before = false → MarkEdit (before ++ c :: after) (before ++ after)
  /-- The mark is put before all tokens of a beat, or of what follows the last point. -/
  | putThrow (before after : List Char) {c : Char} : c = 'T' ∨ c = 't' →
      groupOpen before = false → beatBefore before = [] → (beatAfter after).any isThrow = false →
      MarkEdit (before ++ after) (before ++ c :: after)
  /-- The mark is put before the last waypoint of a beat. -/
  | putCatch (before after : List Char) {c : Char} {t : Token} : c = 'C' ∨ c = 'c' →
      groupOpen before = false → (beatBefore before).any isCatch = false →
      beatAfter after = [t] → t.isWaypoint = true →
      MarkEdit (before ++ after) (before ++ c :: after)
  | dropCatch (before after : List Char) {c : Char} {t : Token} : c = 'C' ∨ c = 'c' →
      groupOpen before = false → beatAfter after = [t] → t.isWaypoint = true →
      MarkEdit (before ++ c :: after) (before ++ after)

/-- The catch mark of beat `n` is moved to stand before the group that is waypoint `k` of the
beat. -/
inductive CatchMove (n k : Nat) : List Char → List Char → Prop
  | move {before after before' after' inside : List Char} {rest : List Token} {c : Char} :
      c = 'C' ∨ c = 'c' → before ++ after = before' ++ after' →
      groupOpen before = false → groupOpen before' = false → points before = n →
      points before' = n → (beatBefore before').countP isWaypoint = k →
      beatAfter after' = .group inside :: rest →
      CatchMove n k (before ++ c :: after) (before' ++ c :: after')

theorem exists_ofChar?_throwMark {c : Char} (hc : c = 'T' ∨ c = 't') :
    ∃ small, Token.ofChar? c = some (.throwMark small) := by
  rcases hc with rfl | rfl
  · exact ⟨false, rfl⟩
  · exact ⟨true, rfl⟩

theorem exists_ofChar?_catchMark {c : Char} (hc : c = 'C' ∨ c = 'c') :
    ∃ small, Token.ofChar? c = some (.catchMark small) := by
  rcases hc with rfl | rfl
  · exact ⟨false, rfl⟩
  · exact ⟨true, rfl⟩

theorem scan_singleton {c : Char} {t : Token} (h : Token.ofChar? c = some t) :
    scan [c] = ⟨[t], none⟩ := scan_token h []

theorem compileSegment_of_markEdit {cs ds : List Char} (h : compileSegment juggler cs = .ok g)
    (hedit : MarkEdit cs ds) : compileSegment juggler ds = .ok g := by
  -- Each edit is a lemma on the tokens of one beat; after the last end only a throw mark may stand.
  cases hedit with
  | dropThrow before after hc hopen =>
    obtain ⟨small, hchar⟩ := exists_ofChar?_throwMark hc
    have hscan := scan_singleton hchar
    refine compileSegment_rewrite [_] [] h hopen (by rw [hscan]) (by simp [hscan]) rfl ?_ ?_
    · rw [beatAround, hscan]
      exact OptionalThrow.of_throwMark
    · rw [beatAround, hscan]
      exact fun b => BeatTokens.of_throwMark
  | putThrow before after hc hopen hbefore hafter =>
    obtain ⟨small, hchar⟩ := exists_ofChar?_throwMark hc
    have hscan := scan_singleton hchar
    refine compileSegment_rewrite [] [_] h hopen rfl (by simp) (by rw [hscan]) ?_ ?_
    · rw [beatAround, beatAround, hscan, hbefore]
      intro hthrow
      have hnil : beatAfter after = [] := hthrow.eq_nil hafter
      exact .inr ⟨small, by rw [hnil]; rfl⟩
    · rw [beatAround, beatAround, hscan, hbefore]
      exact fun b => BeatTokens.cons_throwMark small hafter
  | putCatch before after hc hopen hbefore hafter ht =>
    obtain ⟨small, hchar⟩ := exists_ofChar?_catchMark hc
    have hscan := scan_singleton hchar
    refine compileSegment_rewrite [] [_] h hopen rfl (by simp) (by rw [hscan]) ?_ ?_
    · rw [beatAround, hafter]
      exact fun hthrow => absurd hthrow (not_optionalThrow_append (isThrow_of_isWaypoint _ ht))
    · rw [beatAround, beatAround, hscan, hafter]
      exact fun b => BeatTokens.catchMark_last small hbefore ht
  | dropCatch before after hc hopen hafter ht =>
    obtain ⟨small, hchar⟩ := exists_ofChar?_catchMark hc
    have hscan := scan_singleton hchar
    refine compileSegment_rewrite [_] [] h hopen (by rw [hscan]) (by simp [hscan]) rfl ?_ ?_
    · rw [beatAround, hscan]
      exact fun hthrow => absurd hthrow (not_optionalThrow_append rfl)
    · rw [beatAround, beatAround, hscan, hafter]
      exact fun b => BeatTokens.of_catchMark_last

/-- Text of one beat belongs to the beat on either side of a place in it. -/
theorem tokens_across {across : List Char} (hbefore : (scan before).fault = none)
    (hopen : groupOpen before = false) (hacross : (scan across).fault = none)
    (hpoints : points (before ++ across) = points before) (after : List Char) :
    .beatEnd ∉ (scan across).tokens ∧
      beatBefore (before ++ across) = beatBefore before ++ (scan across).tokens ∧
      beatAfter (across ++ after) = (scan across).tokens ++ beatAfter after := by
  have hend : .beatEnd ∉ (scan across).tokens := by
    rw [points_append hopen, points_eq_ends hacross] at hpoints
    exact List.count_eq_zero.1 (Nat.add_eq_left.1 hpoints)
  refine ⟨hend, ?_, ?_⟩
  · rw [beatBefore, scan_append hbefore]
    exact currentBeat_append_of_not_mem _ hend
  · rw [beatAfter, scan_append hacross]
    exact restOfBeat_append_of_not_mem hend _

/-- A catch mark stands at another place among the tokens of a part of a beat. -/
theorem compileSegment_moved {mid' inside : List Char} {ts us ts' us' rest : List Token}
    {small : Bool} (h : compileSegment juggler (before ++ (mid ++ after)) = .ok g)
    (hbefore : groupOpen before = false) (hmid : scan mid = ⟨ts ++ .catchMark small :: us, none⟩)
    (hmid' : scan mid' = ⟨ts' ++ .catchMark small :: us', none⟩) (heq : ts ++ us = ts' ++ us')
    (hend : .beatEnd ∉ ts ++ us) (hafter : us' ++ beatAfter after = .group inside :: rest)
    (hone : 1 ≤ (beatBefore before ++ ts').countP isWaypoint) :
    ∃ as b cs, g.beats = as ++ b :: cs ∧ as.length = points before ∧
      compileSegment juggler (before ++ (mid' ++ after)) = .ok
        ⟨as ++ { b with catchIndex := (beatBefore before ++ ts').countP isWaypoint } :: cs⟩ := by
  have haround : beatAround before mid after =
      (beatBefore before ++ ts) ++ .catchMark small :: (us ++ beatAfter after) := by
    simp [beatAround, hmid]
  have haround' : beatAround before mid' after =
      (beatBefore before ++ ts') ++ .catchMark small :: .group inside :: rest := by
    simp [beatAround, hmid', hafter]
  have hsame : (beatBefore before ++ ts) ++ (us ++ beatAfter after) =
      (beatBefore before ++ ts') ++ .group inside :: rest := by
    rw [← hafter, List.append_assoc, List.append_assoc, ← List.append_assoc ts, heq,
      List.append_assoc]
  have hend' : .beatEnd ∉ (scan mid).tokens := by
    simpa [hmid] using hend
  -- No catch mark can stand after the last end, so the place is in a beat.
  rcases compileSegment_focus h hbefore (by rw [hmid]) hend' with
    ⟨hthrow, -⟩ | ⟨as, b, cs, hg, hlength, hb, hall⟩
  · rw [haround] at hthrow
    exact absurd hthrow (not_optionalThrow_append rfl)
  · rw [haround] at hb
    refine ⟨as, b, cs, hg, hlength, hall mid' _ (by rw [hmid']) ?_⟩
    rw [haround']
    exact hb.move_catchMark hsame hone

/-- Only the catch of the beat changes, to the waypoint that the mark stands before. -/
theorem compileSegment_of_catchMove {n k : Nat} {cs ds : List Char}
    (h : compileSegment juggler cs = .ok g) (hone : 1 ≤ k) (hmove : CatchMove n k cs ds) :
    ∃ as b bs, g.beats = as ++ b :: bs ∧ as.length = n ∧
      compileSegment juggler ds = .ok ⟨as ++ { b with catchIndex := k } :: bs⟩ := by
  cases hmove with
  | @move before after before' after' inside rest c hc heq hopen hopen' hn hn' hk hafter =>
  subst hn hk
  obtain ⟨small, hmark⟩ := exists_ofChar?_catchMark hc
  have hfault := (compileSegment_eq_ok_iff_tokens.1 h).1
  obtain ⟨hbefore, hfault⟩ := fault_eq_none_of_append hfault hopen
  rw [scan_token hmark] at hfault
  have hfirst : ∀ {across}, (scan across).fault = none →
      scan (c :: across) = ⟨[] ++ .catchMark small :: (scan across).tokens, none⟩ := by
    intro across hacross
    rw [scan_token hmark, Scan.cons, hacross]
    rfl
  have hlast : ∀ {across}, (scan across).fault = none →
      scan (across ++ [c]) = ⟨(scan across).tokens ++ .catchMark small :: [], none⟩ := by
    intro across hacross
    rw [scan_append hacross, scan_singleton hmark]
  -- The mark moves over the text `across`, to the end of the beat or to its start.
  rcases List.append_eq_append_iff.1 heq with ⟨across, rfl, rfl⟩ | ⟨across, rfl, rfl⟩
  · rw [groupOpen_append hopen] at hopen'
    obtain ⟨hacross, -⟩ := fault_eq_none_of_append hfault hopen'
    obtain ⟨hend, hcur, -⟩ := tokens_across hbefore hopen hacross hn' after'
    rw [hcur] at hone ⊢
    have hmoved := compileSegment_moved h hopen (hfirst hacross) (hlast hacross) (by simp)
      (by simpa using hend) hafter hone
    simpa using hmoved
  · obtain ⟨hbefore', hacross⟩ := fault_eq_none_of_append hbefore hopen'
    obtain ⟨hend, -, hcur⟩ := tokens_across hbefore' hopen' hacross hn'.symm after
    rw [hcur] at hafter
    have hmoved := compileSegment_moved (by simpa using h) hopen' (hlast hacross) (hfirst hacross)
      (by simp) (by simpa using hend) hafter (by simpa using hone)
    rw [hn'] at hmoved
    simpa using hmoved

/-- **Marks that say what is meant without them make no difference.**  Let a segment text compile.
After any number of edits that put in or take out a throw mark, or a catch mark before the last
waypoint of a beat, it compiles to the same segment.  If the catch mark of beat `n` is moved to
stand before another waypoint `k` but the first, and this is a group, it compiles to the same
segment but for the catch of beat `n`, which is at `k`. -/
theorem compileSegment_of_markEdits {juggler : Int} {cs : List Char} {g : Segment}
    (h : compileSegment juggler cs = .ok g) :
    (∀ ds, Relation.ReflTransGen MarkEdit cs ds → compileSegment juggler ds = .ok g) ∧
      ∀ n k ds, 1 ≤ k → CatchMove n k cs ds →
        ∃ as b bs, g.beats = as ++ b :: bs ∧ as.length = n ∧
          compileSegment juggler ds = .ok ⟨as ++ { b with catchIndex := k } :: bs⟩ := by
  refine ⟨fun ds hedits => ?_, fun n k ds hone hmove => compileSegment_of_catchMove h hone hmove⟩
  induction hedits with
  | refl => exact h
  | tail _ hedit ih => exact compileSegment_of_markEdit ih hedit

/-- The marks of the second beat are taken out and a throw mark is put after the last point; or the
catch mark of the first beat moves to the waypoint before. -/
theorem compileSegment_of_markEdits_both :
    Relation.ReflTransGen MarkEdit "(1)(2) C(3).T(4)-c(5).".toList "(1)(2) C(3).(4)-(5).t".toList ∧
      CatchMove 0 1 "(1)(2) C(3).T(4)-c(5).".toList "(1)C(2) (3).T(4)-c(5).".toList ∧
      compileSegment 1 "(1)(2) C(3).(4)-(5).t".toList =
        compileSegment 1 "(1)(2) C(3).T(4)-c(5).".toList ∧
      ∃ g, compileSegment 1 "(1)C(2) (3).T(4)-c(5).".toList = .ok g ∧
        g.beats.map Beat.catchIndex = [1, 2] := by
  have h1 : MarkEdit "(1)(2) C(3).T(4)-c(5).".toList "(1)(2) C(3).(4)-c(5).".toList :=
    .dropThrow "(1)(2) C(3).".toList "(4)-c(5).".toList (.inl rfl) rfl
  have h2 : MarkEdit "(1)(2) C(3).(4)-c(5).".toList "(1)(2) C(3).(4)-(5).".toList :=
    .dropCatch "(1)(2) C(3).(4)-".toList "(5).".toList (.inr rfl) rfl rfl rfl
  have h3 : MarkEdit "(1)(2) C(3).(4)-(5).".toList "(1)(2) C(3).(4)-(5).t".toList :=
    .putThrow "(1)(2) C(3).(4)-(5).".toList [] (.inr rfl) rfl rfl rfl
  have hedits := Relation.ReflTransGen.tail (.tail (.single h1) h2) h3
  have hmove : CatchMove 0 1 "(1)(2) C(3).T(4)-c(5).".toList "(1)C(2) (3).T(4)-c(5).".toList :=
    @CatchMove.move 0 1 "(1)(2) ".toList "(3).T(4)-c(5).".toList "(1)".toList
      "(2) (3).T(4)-c(5).".toList "2".toList _ 'C' (.inl rfl) rfl rfl rfl rfl rfl rfl rfl
  have hcompiles : compileSegment 1 "(1)(2) C(3).T(4)-c(5).".toList = .ok _ := rfl
  obtain ⟨hsame, hmoved⟩ := compileSegment_of_markEdits hcompiles
  obtain ⟨as, b, bs, hbeats, hlength, hds⟩ := hmoved 0 1 _ (Nat.le_refl 1) hmove
  obtain rfl := List.length_eq_zero_iff.1 hlength
  obtain ⟨rfl, rfl⟩ := List.cons_eq_cons.1 hbeats
  exact ⟨hedits, hmove, (hsame _ hedits).trans hcompiles.symm, _, hds, rfl⟩

end HandPath.Notation
