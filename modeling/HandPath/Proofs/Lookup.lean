import HandPath.Pattern.Lookup
import HandPath.Proofs.WellFormed
import Mathlib.Algebra.Group.Int.Defs
import Mathlib.Algebra.Group.Nat.Defs

/-!
# HandPath.Proofs.Lookup — what a compiled pattern answers

In a pattern that has a segment, every juggler has one of them (`exists_segment`), and the juggler
whose number is greater by the number of segments has the same (`segment_add_jugglers`).  From there
each question is one about a segment (`beat?_eq_none_iff`) and a beat
(`bounds_of_coordinate`).  What is told of a beat that a segment does not have depends on the
numbers asked with: only if all of them can be written are they named (`outOfRange_eq_ite`).

Main statement (`answers_of_ofNotation`): a pattern that a text compiles to has an answer to every
question, for all integers.  A beat out of range whose number is too long to be written is refused
without being named (`waypointCount_of_long_number`).
-/

namespace HandPath

/-! ### Refusals -/

/-- An integer can be written exactly if it lies between the bounds that have a digit too many. -/
theorem Text.isWritable_iff {n : Int} : isWritable n = true ↔ n.natAbs < 10 ^ maxDigits := by
  rw [isWritable, decide_eq_true_iff]
  exact Nat.length_toDigits_le_iff (by decide) (by decide)

namespace LookupError

/-- The three numbers are named, unless one of them is too long to be written. -/
theorem outOfRange_eq_ite (juggler n : Int) (k : Nat) : outOfRange juggler n k =
    if juggler.natAbs < 10 ^ Text.maxDigits ∧ n.natAbs < 10 ^ Text.maxDigits ∧
      k < 10 ^ Text.maxDigits then .beatOutOfRange juggler n k else .unwritable := by
  have hall : [juggler, n, (k : Int)].all Text.isWritable = true ↔
      juggler.natAbs < 10 ^ Text.maxDigits ∧ n.natAbs < 10 ^ Text.maxDigits ∧
        k < 10 ^ Text.maxDigits := by
    simp only [List.all_cons, List.all_nil, Bool.and_eq_true, Text.isWritable_iff,
      Int.natAbs_natCast, and_true]
  exact if_congr hall rfl rfl

/-- The greatest number that can be written is named, the next one is not. -/
theorem outOfRange_at_limit :
    outOfRange (10 ^ Text.maxDigits - 1) 1 1 = .beatOutOfRange (10 ^ Text.maxDigits - 1) 1 1 ∧
      outOfRange (10 ^ Text.maxDigits) 1 1 = .unwritable ∧
      outOfRange 1 (10 ^ Text.maxDigits) 1 = .unwritable := by
  have hone : 1 < 10 ^ Text.maxDigits := Nat.one_lt_pow (by decide) (by decide)
  have hcast : (10 : Int) ^ Text.maxDigits = (10 ^ Text.maxDigits : Nat) := by push_cast; rfl
  refine ⟨?_, ?_, ?_⟩
  · rw [outOfRange_eq_ite, if_pos]
    omega
  · rw [outOfRange_eq_ite, if_neg]
    omega
  · rw [outOfRange_eq_ite, if_neg]
    omega

end LookupError

/-- What two jugglers are told about beat `n`: the same answer, or that the segment does not have
such a beat, either with the own number. -/
inductive SameOutcome (juggler juggler' n : Int) {α : Type} :
    Except LookupError α → Except LookupError α → Prop where
  | answer (a : α) : SameOutcome juggler juggler' n (.ok a) (.ok a)
  | refusal (k : Nat) : SameOutcome juggler juggler' n (.error (.outOfRange juggler n k))
      (.error (.outOfRange juggler' n k))

/-- What is made of the same answers is the same. -/
theorem SameOutcome.map {α β : Type} {juggler juggler' n : Int} {x x' : Except LookupError α}
    (h : SameOutcome juggler juggler' n x x') (f : α → β) :
    SameOutcome juggler juggler' n (x >>= fun a => pure (f a)) (x' >>= fun a => pure (f a)) := by
  cases h with
  | answer a => exact .answer (f a)
  | refusal k => exact .refusal k

/-- The question about beat `n` is refused exactly if it is none of the `k` beats of a segment. -/
def RefusedOutside (juggler n : Int) (k : Nat) {α : Type} (x : Except LookupError α) : Prop :=
  ∀ e, x = .error e ↔ ¬ (0 ≤ n ∧ n < k) ∧ e = .outOfRange juggler n k

/-! ### Segments and beats -/

theorem Segment.beat?_eq_none_iff {g : Segment} {n : Int} :
    g.beat? n = none ↔ ¬ (0 ≤ n ∧ n < g.period) := by
  unfold Segment.beat? Segment.period
  split_ifs with hn
  · refine ⟨fun _ => ?_, fun _ => rfl⟩
    omega
  · rw [List.getElem?_eq_none_iff]
    omega

theorem Segment.exists_beat? {g : Segment} {n : Int} (hn : 0 ≤ n ∧ n < g.period) :
    ∃ b ∈ g.beats, g.beat? n = some b := by
  cases h : g.beat? n with
  | none => exact absurd hn (Segment.beat?_eq_none_iff.1 h)
  | some b =>
    refine ⟨b, ?_, rfl⟩
    unfold Segment.beat? at h
    split_ifs at h
    exact List.mem_of_getElem? h

/-- Where a beat has a coordinate it has a waypoint. -/
theorem Beat.mem_of_coordinate?_eq_some {b : Beat} {i : Int} {c : Coordinate}
    (h : b.coordinate? i = some c) : (0 ≤ i ∧ i < b.waypointCount) ∧ some c ∈ b.waypoints := by
  unfold Beat.coordinate? at h
  split_ifs at h with hi
  rw [Option.join_eq_some_iff] at h
  obtain ⟨hlt, -⟩ := List.getElem?_eq_some_iff.1 h
  unfold Beat.waypointCount
  refine ⟨?_, List.mem_of_getElem? h⟩
  omega

theorem Beat.WellFormed.exists_coordinate {b : Beat} (hb : b.WellFormed) {i : Int}
    (h : (b.coordinate? i).isSome) : ∃ c, b.coordinate? i = some c ∧ c.isFinite = true := by
  obtain ⟨c, hc⟩ := Option.isSome_iff_exists.1 h
  exact ⟨c, hc, hb.isFinite c (Beat.mem_of_coordinate?_eq_some hc).2⟩

namespace Pattern

open Traversal

variable {p : Pattern}

theorem jugglers_pos (hp : p.segments ≠ []) : 0 < p.jugglers := List.length_pos_iff.2 hp

theorem segmentIndex_of_ne_nil (hp : p.segments ≠ []) (juggler : Int) :
    p.segmentIndex juggler = .ok ((juggler - 1) % (p.jugglers : Int)).toNat := by
  rw [segmentIndex, if_neg]
  rwa [List.isEmpty_iff]

/-- Every juggler has a segment. -/
theorem exists_segment (hp : p.segments ≠ []) (juggler : Int) :
    ∃ (i : Nat) (g : Segment), p.segmentIndex juggler = .ok i ∧
      (i : Int) = (juggler - 1) % (p.jugglers : Int) ∧ i < p.jugglers ∧
      g ∈ p.segments ∧ p.segment juggler = .ok g := by
  have hindex := segmentIndex_of_ne_nil hp juggler
  have hpos := jugglers_pos hp
  have hnonneg := Int.emod_nonneg (juggler - 1) (by omega : (p.jugglers : Int) ≠ 0)
  have hlt := Int.emod_lt_of_pos (juggler - 1) (by omega : 0 < (p.jugglers : Int))
  -- The remainder is not negative, so that `toNat` keeps it.
  generalize hi : ((juggler - 1) % (p.jugglers : Int)).toNat = i at hindex
  have hi' : i < p.jugglers := by omega
  refine ⟨i, p.segments[i], hindex, by omega, hi', List.getElem_mem hi', ?_⟩
  exact bind_eq_ok_iff.2 ⟨i, hindex, by rw [List.getElem?_eq_getElem hi']⟩

/-- The segment of a juggler stands at the juggler's index. -/
theorem getElem?_of_segment {juggler : Int} {i : Nat} {g : Segment}
    (hindex : p.segmentIndex juggler = .ok i) (hg : p.segment juggler = .ok g) :
    p.segments[i]? = some g := by
  obtain ⟨i', hindex', hmatch⟩ := bind_eq_ok_iff.1 hg
  obtain rfl : i = i' := Except.ok.inj (hindex.symm.trans hindex')
  split at hmatch
  · next g' hg' => rw [hg', Except.ok.inj hmatch]
  · nomatch hmatch

/-- Numbers that differ by the number of segments have the same segment. -/
theorem segment_add_jugglers (p : Pattern) (juggler : Int) :
    p.segment (juggler + p.jugglers) = p.segment juggler := by
  have hmod : (juggler + p.jugglers - 1) % (p.jugglers : Int) =
      (juggler - 1) % (p.jugglers : Int) := by
    rw [show juggler + p.jugglers - 1 = juggler - 1 + p.jugglers by omega, Int.add_emod_right]
  rw [segment, segment, segmentIndex, segmentIndex, hmod]

/-! ### Questions about a segment -/

variable {juggler n index : Int} {g : Segment}

theorem period_of_segment (hg : p.segment juggler = .ok g) :
    p.period juggler = .ok g.period := by
  rw [period, hg]
  rfl

theorem coordinate_of_segment (hg : p.segment juggler = .ok g) :
    p.coordinate juggler n index = .ok ((g.beat? n).bind (·.coordinate? index)) := by
  rw [coordinate, hg]
  rfl

theorem beat_of_segment (hg : p.segment juggler = .ok g) : p.beat juggler n =
    match g.beat? n with
    | some b => .ok b
    | none => .error (.outOfRange juggler n g.period) := by
  rw [beat, hg]
  rfl

/-- A beat is refused exactly if the segment does not have it. -/
theorem beat_refusedOutside (hg : p.segment juggler = .ok g) :
    RefusedOutside juggler n g.period (p.beat juggler n) := by
  intro e
  rw [beat_of_segment hg, ← Segment.beat?_eq_none_iff]
  cases g.beat? n with
  | some b => simp
  | none => simp [eq_comm]

theorem waypointCount_of_beat {b : Beat} (hb : p.beat juggler n = .ok b) :
    p.waypointCount juggler n = .ok b.waypointCount := by
  rw [waypointCount, hb]
  rfl

theorem catchIndex_of_beat {b : Beat} (hb : p.beat juggler n = .ok b) :
    p.catchIndex juggler n = .ok b.catchIndex := by
  rw [catchIndex, hb]
  rfl

theorem waypointCount_refusedOutside (hg : p.segment juggler = .ok g) :
    RefusedOutside juggler n g.period (p.waypointCount juggler n) := fun e =>
  bind_ok_eq_error_iff.trans (beat_refusedOutside hg e)

theorem catchIndex_refusedOutside (hg : p.segment juggler = .ok g) :
    RefusedOutside juggler n g.period (p.catchIndex juggler n) := fun e =>
  bind_ok_eq_error_iff.trans (beat_refusedOutside hg e)

/-- Jugglers that have the same segment, be it of two patterns, are told the same. -/
theorem beat_of_segment_eq {p' : Pattern} {juggler' : Int} (hg : p.segment juggler = .ok g)
    (hg' : p'.segment juggler' = .ok g) :
    SameOutcome juggler juggler' n (p.beat juggler n) (p'.beat juggler' n) := by
  rw [beat_of_segment hg, beat_of_segment hg']
  cases g.beat? n with
  | some b => exact .answer b
  | none => exact .refusal g.period

/-! ### All questions together -/

/-- The answers to the questions about a juggler, a beat and a waypoint. -/
structure Answers (p : Pattern) (juggler n index : Int) : Prop where
  segmentIndex : ∃ i : Nat, p.segmentIndex juggler = .ok i ∧ i < p.jugglers ∧
    (i : Int) = (juggler - 1) % (p.jugglers : Int)
  /-- Jugglers are answered alike if their numbers differ by the number of segments. -/
  period_cyclic : p.period (juggler + p.jugglers) = p.period juggler
  beat_cyclic : SameOutcome juggler (juggler + p.jugglers) n (p.beat juggler n)
    (p.beat (juggler + p.jugglers) n)
  waypointCount_cyclic : SameOutcome juggler (juggler + p.jugglers) n (p.waypointCount juggler n)
    (p.waypointCount (juggler + p.jugglers) n)
  catchIndex_cyclic : SameOutcome juggler (juggler + p.jugglers) n (p.catchIndex juggler n)
    (p.catchIndex (juggler + p.jugglers) n)
  coordinate_cyclic :
    p.coordinate (juggler + p.jugglers) n index = p.coordinate juggler n index
  /-- A beat that the segment does not have is refused, by the juggler asked for. -/
  outOfRange : ∃ k : Nat, p.period juggler = .ok k ∧
    RefusedOutside juggler n k (p.beat juggler n) ∧
    RefusedOutside juggler n k (p.waypointCount juggler n) ∧
    RefusedOutside juggler n k (p.catchIndex juggler n)
  /-- The refusal names the numbers exactly if none has more digits than can be written. -/
  refusal : ∀ k : Nat, LookupError.outOfRange juggler n k =
    if juggler.natAbs < 10 ^ Text.maxDigits ∧ n.natAbs < 10 ^ Text.maxDigits ∧
      k < 10 ^ Text.maxDigits then .beatOutOfRange juggler n k else .unwritable
  message : ∀ k : Nat, (LookupError.beatOutOfRange juggler n k).message =
    "beat 超界：juggler=" ++ Text.intText juggler ++ " beat=" ++ Text.intText n ++ " period=" ++
      Text.natText k
  /-- A beat that it has is well-formed, and its throw and its catch have finite coordinates. -/
  inRange : ∀ k : Nat, p.period juggler = .ok k → 0 ≤ n → n < k →
    ∃ (b : Beat) (c d : Coordinate), p.beat juggler n = .ok b ∧
      p.waypointCount juggler n = .ok b.waypointCount ∧
      p.catchIndex juggler n = .ok b.catchIndex ∧
      2 ≤ b.waypointCount ∧ 1 ≤ b.catchIndex ∧ b.catchIndex < b.waypointCount ∧
      p.coordinate juggler n 0 = .ok (some c) ∧ c.isFinite = true ∧
      p.coordinate juggler n b.catchIndex = .ok (some d) ∧ d.isFinite = true
  coordinate_total : ∃ w, p.coordinate juggler n index = .ok w
  coordinate_some : ∀ c, p.coordinate juggler n index = .ok (some c) →
    ∃ k count : Nat, p.period juggler = .ok k ∧ (0 ≤ n ∧ n < k) ∧
      p.waypointCount juggler n = .ok count ∧ 0 ≤ index ∧ index < count

/-- The throw and the catch of a well-formed beat have finite coordinates. -/
theorem exists_coordinate (hg : p.segment juggler = .ok g) {b : Beat} (hb : g.beat? n = some b)
    (hwell : b.WellFormed) {i : Int} (hi : (b.coordinate? i).isSome = true) :
    ∃ c, p.coordinate juggler n i = .ok (some c) ∧ c.isFinite = true := by
  obtain ⟨c, hc, hfin⟩ := hwell.exists_coordinate hi
  refine ⟨c, ?_, hfin⟩
  rw [coordinate_of_segment hg, hb, Option.bind_some, hc]

theorem bounds_of_coordinate (hg : p.segment juggler = .ok g) {c : Coordinate}
    (h : p.coordinate juggler n index = .ok (some c)) : ∃ k count : Nat,
      p.period juggler = .ok k ∧ (0 ≤ n ∧ n < k) ∧ p.waypointCount juggler n = .ok count ∧
        0 ≤ index ∧ index < count := by
  rw [coordinate_of_segment hg] at h
  obtain ⟨b, hb, hc⟩ := Option.bind_eq_some_iff.1 (Except.ok.inj h)
  have hn : 0 ≤ n ∧ n < g.period := by
    by_contra hout
    rw [Segment.beat?_eq_none_iff.2 hout] at hb
    nomatch hb
  have hbeat : p.beat juggler n = .ok b := by rw [beat_of_segment hg, hb]
  exact ⟨g.period, b.waypointCount, period_of_segment hg, hn, waypointCount_of_beat hbeat,
    (Beat.mem_of_coordinate?_eq_some hc).1⟩

theorem answers_of_wellFormed (hp : p.WellFormed) (juggler n index : Int) :
    p.Answers juggler n index := by
  -- Both jugglers have the segment `g`, and every field is a fact about it.
  obtain ⟨i, g, hindex, hi, hlt, hmem, hg⟩ := exists_segment hp.segments_ne_nil juggler
  have hg' : p.segment (juggler + p.jugglers) = .ok g := by rw [segment_add_jugglers, hg]
  have hbeat := beat_of_segment_eq (n := n) hg hg'
  exact {
    segmentIndex := ⟨i, hindex, hlt, hi⟩
    period_cyclic := by rw [period_of_segment hg, period_of_segment hg']
    beat_cyclic := hbeat
    waypointCount_cyclic := hbeat.map _
    catchIndex_cyclic := hbeat.map _
    coordinate_cyclic := by rw [coordinate_of_segment hg, coordinate_of_segment hg']
    outOfRange := ⟨g.period, period_of_segment hg, beat_refusedOutside hg,
      waypointCount_refusedOutside hg, catchIndex_refusedOutside hg⟩
    refusal := LookupError.outOfRange_eq_ite juggler n
    message := fun _ => rfl
    inRange := by
      intro k hk h0 hn
      rw [period_of_segment hg] at hk
      obtain ⟨b, hb, hsome⟩ := Segment.exists_beat? ⟨h0, Except.ok.inj hk ▸ hn⟩
      have hwell := hp.beats g hmem b hb
      have hbeat : p.beat juggler n = .ok b := by rw [beat_of_segment hg, hsome]
      obtain ⟨c, hc, hcfin⟩ := exists_coordinate hg hsome hwell hwell.throw_isSome
      obtain ⟨d, hd, hdfin⟩ := exists_coordinate hg hsome hwell hwell.catch_isSome
      exact ⟨b, c, d, hbeat, waypointCount_of_beat hbeat, catchIndex_of_beat hbeat, hwell.two_le,
        hwell.one_le_catchIndex, hwell.catchIndex_lt, hc, hcfin, hd, hdfin⟩
    coordinate_total := ⟨_, coordinate_of_segment hg⟩
    coordinate_some := fun c h => bounds_of_coordinate hg h }

end Pattern

/-- **Questions are answered safely.**  A pattern that a text compiles to has the answers of
`Pattern.Answers` for all integers. -/
theorem Pattern.answers_of_ofNotation {text : String} {p : Pattern}
    (h : Pattern.ofNotation text = .ok p) (juggler n index : Int) :
    p.Answers juggler n index :=
  answers_of_wellFormed (wellFormed_of_ofNotation h) juggler n index

/-- The second of two segments, asked for by a juggler with a negative number. -/
theorem answers_of_negative_juggler :
    ∃ p, Pattern.ofNotation "(0)-(0).|(0)(0).(0)C(0)-." = .ok p ∧ p.Answers (-6) 1 2 := by
  have h : Pattern.ofNotation "(0)-(0).|(0)(0).(0)C(0)-." = .ok _ := rfl
  exact ⟨_, h, Pattern.answers_of_ofNotation h (-6) 1 2⟩

/-! ### Numbers that are too long -/

/-- If all segments have `k` beats, every juggler is refused another beat. -/
theorem Pattern.waypointCount_of_forall_period {p : Pattern} (hp : p.segments ≠ []) {k : Nat}
    (hk : ∀ g ∈ p.segments, g.period = k) (juggler : Int) {n : Int} (hn : ¬ (0 ≤ n ∧ n < k)) :
    p.waypointCount juggler n = .error (.outOfRange juggler n k) := by
  obtain ⟨-, g, -, -, -, hmem, hg⟩ := exists_segment hp juggler
  rw [waypointCount_refusedOutside hg, hk g hmem]
  exact ⟨hn, rfl⟩

/-- A beat that is not in the only segment is refused by its number and that of the juggler, if both
can be written; so two jugglers with the same segment may be told different errors. -/
theorem waypointCount_of_long_number : ∃ p, Pattern.ofNotation "T(0)(1)." = .ok p ∧
    p.waypointCount 1 (10 ^ Text.maxDigits) = .error .unwritable ∧
    p.waypointCount (10 ^ Text.maxDigits - 1) 1 =
      .error (.beatOutOfRange (10 ^ Text.maxDigits - 1) 1 1) ∧
    p.waypointCount (10 ^ Text.maxDigits - 1 + p.jugglers) 1 = .error .unwritable := by
  obtain ⟨p, h, hjugglers, hperiod⟩ : ∃ p, Pattern.ofNotation "T(0)(1)." = .ok p ∧
      p.jugglers = 1 ∧ ∀ g ∈ p.segments, g.period = 1 :=
    ⟨_, rfl, by decide +kernel, by decide +kernel⟩
  have hrefused := p.waypointCount_of_forall_period (wellFormed_of_ofNotation h).segments_ne_nil
    hperiod
  -- At the limit one number can be written and the next cannot.
  obtain ⟨hlast, hnext, hlong⟩ := LookupError.outOfRange_at_limit
  have hpos : (0 : Int) < 10 ^ Text.maxDigits := Int.pow_pos (by decide)
  refine ⟨p, h, ?_, ?_, ?_⟩
  · rw [hrefused 1 (by omega), hlong]
  · rw [hrefused _ (by decide), hlast]
  · rw [hrefused _ (by decide), hjugglers, Int.natCast_one, Int.sub_add_cancel, hnext]

end HandPath
