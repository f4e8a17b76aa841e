import HandPath.Proofs.Truncation

/-!
# HandPath.Proofs.Juxtaposition — one segment text after another

After the end of a beat nothing is known of the beats before it but their number.  Tokens of whole
beats, after which the current beat is empty, are in the grammar together with those that follow
them exactly if both are (`segmentTokens_append_iff`); and a token that is checked against the
tokens before it is checked against those of its own beat and the number of beats
(`markCheck_append`, `coordinateCheck_append`), so that a failure in the later text stays what it
is, at a later beat (`SegmentFault.delay`).

Main statement (`compileSegment_append`): a text of whole beats and the text after it compile
together to the beats of both exactly if both compile, and fail as the later text does.
-/

namespace HandPath

/-- The failure with the number of its beat raised by `n`, where it has one. -/
def Failure.delay (n : Nat) (f : Failure) : Failure := f.move id (Option.map (· + (n : Int)))

namespace Notation

open Token Traversal

variable {juggler : Int} {us : List Token}

/-! ### Whole beats -/

theorem currentBeat_eq_nil_iff : currentBeat us = [] ↔ us = [] ∨ us.getLast? = some .beatEnd := by
  induction us using List.reverseRecOn with
  | nil => simp
  | append_singleton us t _ =>
    by_cases ht : t = .beatEnd
    · simp [ht]
    · simp [currentBeat_concat us ht, ht]

/-- Tokens of whole beats take no part in the current beat. -/
theorem currentBeat_append (h : currentBeat us = []) (ts : List Token) :
    currentBeat (us ++ ts) = currentBeat ts := by
  induction ts using List.reverseRecOn with
  | nil => rw [List.append_nil, h, currentBeat_nil]
  | append_singleton ts t ih =>
    rw [← List.append_assoc]
    by_cases ht : t = .beatEnd
    · subst ht
      rw [currentBeat_concat_beatEnd, currentBeat_concat_beatEnd]
    · rw [currentBeat_concat _ ht, currentBeat_concat _ ht, ih]

/-- Tokens are those of whole beats and then those of the current beat. -/
theorem exists_currentBeat (us : List Token) :
    ∃ whole, us = whole ++ currentBeat us ∧ currentBeat whole = [] ∧ ends whole = ends us := by
  induction us using List.reverseRecOn with
  | nil => exact ⟨[], rfl, rfl, rfl⟩
  | append_singleton us t ih =>
    by_cases ht : t = .beatEnd
    · subst ht
      exact ⟨us ++ [.beatEnd], by simp, currentBeat_concat_beatEnd us, rfl⟩
    · obtain ⟨whole, hus, hwhole, hends⟩ := ih
      refine ⟨whole, ?_, hwhole, ?_⟩
      · rw [currentBeat_concat us ht, ← List.append_assoc, ← hus]
      · rw [ends_concat us ht, hends]

theorem beatEnd_not_mem_currentBeat (us : List Token) : .beatEnd ∉ currentBeat us := by
  intro h
  simpa using List.mem_rtakeWhile_imp h

theorem currentBeat_append_of_not_mem (us : List Token) {ts : List Token} (hend : .beatEnd ∉ ts) :
    currentBeat (us ++ ts) = currentBeat us ++ ts := by
  obtain ⟨whole, hus, hwhole, -⟩ := exists_currentBeat us
  have hcur : .beatEnd ∉ currentBeat us ++ ts := by
    rw [List.mem_append, not_or]
    exact ⟨beatEnd_not_mem_currentBeat us, hend⟩
  -- The whole beats in front drop out, and what is left holds no end.
  calc currentBeat (us ++ ts) = currentBeat (whole ++ (currentBeat us ++ ts)) := by
        rw [← List.append_assoc, ← hus]
    _ = currentBeat (currentBeat us ++ ts) := currentBeat_append hwhole _
    _ = currentBeat us ++ ts := currentBeat_of_not_mem hcur

theorem segmentTokens_tail_iff {ts : List Token} (hend : .beatEnd ∉ ts) {bs : List Beat} :
    SegmentTokens ts bs ↔ OptionalThrow ts ∧ bs = [] := by
  refine ⟨?_, ?_⟩
  · intro h
    cases h with
    | trailing ht => exact ⟨ht, rfl⟩
    | beat => exact absurd (by simp) hend
  · rintro ⟨ht, rfl⟩
    exact .trailing ht

theorem segmentTokens_beat_iff {cur ts : List Token} (hend : .beatEnd ∉ cur) {bs : List Beat} :
    SegmentTokens (cur ++ .beatEnd :: ts) bs ↔
      ∃ b bs', BeatTokens cur b ∧ SegmentTokens ts bs' ∧ bs = b :: bs' := by
  refine ⟨?_, ?_⟩
  · intro h
    generalize hts : cur ++ .beatEnd :: ts = all at h
    cases h with
    | trailing ht =>
      subst hts
      exact absurd (by simp) ht.beatEnd_not_mem
    | beat hb hrest =>
      obtain ⟨rfl, rfl⟩ := Text.append_cons_inj hend hb.beatEnd_not_mem hts
      exact ⟨_, _, hb, hrest, rfl⟩
  · rintro ⟨b, bs', hb, hrest, rfl⟩
    exact .beat hb hrest

/-- Whole beats and what follows them are in the grammar exactly if both are, and denote the beats
of both. -/
theorem segmentTokens_append_iff (h : currentBeat us = []) {ts : List Token} {bs : List Beat} :
    SegmentTokens (us ++ ts) bs ↔
      ∃ as cs, SegmentTokens us as ∧ SegmentTokens ts cs ∧ bs = as ++ cs := by
  -- By the beats of `us`; where there are none left, `us` is empty.
  induction us using beats_induction generalizing bs with
  | tail us hend =>
    rw [currentBeat_of_not_mem hend] at h
    subst h
    refine ⟨fun hts => ⟨[], bs, .trailing (.inl rfl), hts, rfl⟩, ?_⟩
    rintro ⟨as, cs, has, hcs, rfl⟩
    rw [((segmentTokens_tail_iff hend).1 has).2]
    exact hcs
  | beat cur us hend ih =>
    rw [currentBeat_append_beatEnd] at h
    rw [List.append_assoc, List.cons_append, segmentTokens_beat_iff hend]
    refine ⟨?_, ?_⟩
    · rintro ⟨b, bs', hb, hrest, rfl⟩
      obtain ⟨as, cs, has, hcs, rfl⟩ := (ih h).1 hrest
      exact ⟨b :: as, cs, .beat hb has, hcs, rfl⟩
    · rintro ⟨as, cs, has, hcs, rfl⟩
      obtain ⟨b, as', hb, has', rfl⟩ := (segmentTokens_beat_iff hend).1 has
      exact ⟨b, as' ++ cs, hb, (ih h).2 ⟨as', cs, has', hcs, rfl⟩, rfl⟩

/-! ### Failures at a later beat -/

theorem mistake_delay (v : Violation) (juggler : Option Int) (m n : Nat) :
    (Failure.mistake v juggler (some (n : Int))).delay m =
      .mistake v juggler (some ((m + n : Nat) : Int)) := by
  rw [Failure.delay, Failure.mistake, Failure.mistake, Nat.add_comm, Int.natCast_add]
  rfl

theorem markCheck_append (h : currentBeat us = []) (before : List Token) (t : Token) :
    markCheck juggler (us ++ before) t = (markCheck juggler before t).map (.delay (ends us)) := by
  rw [markCheck, markCheck, currentBeat_append h, ends_append, Option.map_map]
  congr 1
  funext v
  exact (mistake_delay ..).symm

theorem coordinateCheck_append (h : currentBeat us = []) (before : List Token) (t : Token) :
    coordinateCheck juggler (us ++ before) t =
      (coordinateCheck juggler before t).map (.delay (ends us)) := by
  cases t with
  | group inside =>
    have hmove := readGroup_move id (Option.map (· + (ends us : Int))) inside (some juggler)
      (some (ends before : Int))
    rw [coordinateCheck, coordinateCheck, ends_append, Nat.add_comm, Int.natCast_add]
    change readGroup inside (some juggler) (some ((ends before : Int) + ends us)) = _ at hmove
    rw [hmove]
    cases readGroup inside (some juggler) (some (ends before : Int)) with
    | error f => rfl
    | ok c => rfl
  | beatEnd =>
    rw [coordinateCheck, coordinateCheck, currentBeat_append h, ends_append, ← mistake_delay,
      ← mistake_delay]
    split_ifs <;> rfl
  | blank => rfl
  | throwMark small => rfl
  | catchMark small => rfl

/-- The failure of a text after whole beats that are in order is its failure alone, at a later
beat. -/
theorem SegmentFault.delay {s t : List Char} {f : Failure} (hs : Lexes s us [])
    (hwhole : currentBeat us = []) (hmarks : Passes (markCheck juggler) [] us)
    (hcoords : Passes (coordinateCheck juggler) [] us) (h : SegmentFault juggler t f) :
    SegmentFault juggler (s ++ t) (f.delay (ends us)) := by
  have hmarkCheck : (fun before => markCheck juggler (us ++ before)) = _ :=
    funext₂ (markCheck_append hwhole)
  have hcoordinateCheck : (fun before => coordinateCheck juggler (us ++ before)) = _ :=
    funext₂ (coordinateCheck_append hwhole)
  have hlexes : ∀ {ts rest}, Lexes t ts rest → Lexes (s ++ t) (us ++ ts) rest := fun ht =>
    (hs.append t).trans ht
  -- The checks after `us` are those of `t` alone, with the beats counted from the end of `us`.
  cases h with
  | lexical hlex hstuck => exact .lexical (hlexes hlex) hstuck
  | @ending ts hlex hopen =>
    rw [mistake_delay, ← ends_append]
    exact .ending (hlexes hlex) (by rwa [currentBeat_append hwhole])
  | @mark ts f hlex hopen hfirst =>
    refine .mark (hlexes hlex) (by rwa [currentBeat_append hwhole]) ?_
    refine failsFirst_append.2 (.inr ⟨hmarks, ?_⟩)
    show FailsFirst (fun before => markCheck juggler (us ++ before)) [] ts _
    rw [hmarkCheck]
    exact hfirst.map _
  | @coordinate ts f hlex hopen hpasses hfirst =>
    refine .coordinate (hlexes hlex) (by rwa [currentBeat_append hwhole]) ?_ ?_
    · refine passes_append.2 ⟨hmarks, ?_⟩
      show Passes (fun before => markCheck juggler (us ++ before)) [] ts
      rw [hmarkCheck]
      exact (passes_map _).2 hpasses
    · refine failsFirst_append.2 (.inr ⟨hcoords, ?_⟩)
      show FailsFirst (fun before => coordinateCheck juggler (us ++ before)) [] ts _
      rw [hcoordinateCheck]
      exact hfirst.map _

/-- A segment that compiles passes all checks. -/
theorem passes_of_compileSegment {cs : List Char} {g : Segment}
    (h : compileSegment juggler cs = .ok g) :
    Passes (markCheck juggler) [] (scan cs).tokens ∧
      Passes (coordinateCheck juggler) [] (scan cs).tokens := by
  obtain ⟨hs, -, ls, hls, hbs⟩ := compileSegment_eq_ok_iff_walks.1 h
  exact ⟨(layouts_finds juggler hs).passes hls, (beats_finds hs hls).passes hbs⟩

/-- **Beats are compiled by themselves.**  Let the text `s` scan to its end and have no token after
its last point.  With any text `t` after it, it compiles exactly if both of them do, to the beats of
`s` and then those of `t`.  If `s` compiles and `t` fails, both together fail as `t` does, with the
number of the beat, where there is one, raised by the number of beats of `s`. -/
theorem compileSegment_append (juggler : Int) {s : List Char} (hs : (scan s).fault = none)
    (hlast : (scan s).tokens = [] ∨ (scan s).tokens.getLast? = some .beatEnd) (t : List Char) :
    (∀ g, compileSegment juggler (s ++ t) = .ok g ↔
      ∃ a b, compileSegment juggler s = .ok a ∧ compileSegment juggler t = .ok b ∧
        g = ⟨a.beats ++ b.beats⟩) ∧
    ∀ a f, compileSegment juggler s = .ok a → compileSegment juggler t = .error f →
      compileSegment juggler (s ++ t) = .error (f.delay a.period) := by
  have hwhole := currentBeat_eq_nil_iff.2 hlast
  refine ⟨fun g => ?_, fun a f ha hf => ?_⟩
  · simp only [compileSegment_eq_ok_iff_tokens, scan_append hs, segmentTokens_append_iff hwhole]
    refine ⟨?_, ?_⟩
    · rintro ⟨ht, as, cs, has, hcs, hg⟩
      exact ⟨⟨as⟩, ⟨cs⟩, ⟨hs, has⟩, ⟨ht, hcs⟩, congrArg Segment.mk hg⟩
    · rintro ⟨a, b, ⟨-, ha⟩, ⟨ht, hb⟩, rfl⟩
      exact ⟨ht, a.beats, b.beats, ha, hb, rfl⟩
  · obtain ⟨hmarks, hcoords⟩ := passes_of_compileSegment ha
    have hperiod : a.period = ends (scan s).tokens :=
      (compileSegment_eq_ok_iff_tokens.1 ha).2.ends_eq.symm
    rw [hperiod, compileSegment_eq_error_iff]
    exact (compileSegment_eq_error_iff.1 hf).delay (lexes_of_fault_eq_none hs) hwhole hmarks hcoords

/-- The catch of the only beat of the later text is left open. -/
theorem compileSegment_append_later :
    (scan "(1)(2). ".toList).fault = none ∧
      (scan "(1)(2). ".toList).tokens.getLast? = some .beatEnd ∧
      compileSegment 3 ("(1)(2). ".toList ++ "t(3)c-(4).".toList) =
        .error (.mistake .noCatchCoord (some 3) (some 1)) := by
  have hs : (scan "(1)(2). ".toList).fault = none := rfl
  have hlast : (scan "(1)(2). ".toList).tokens.getLast? = some .beatEnd := rfl
  have hfirst : compileSegment 3 "(1)(2). ".toList = .ok _ := rfl
  have hlater : compileSegment 3 "t(3)c-(4).".toList =
    .error (.mistake .noCatchCoord (some 3) (some 0)) := rfl
  refine ⟨hs, hlast, ?_⟩
  exact ((compileSegment_append 3 hs (.inr hlast) _).2 _ _ hfirst hlater).trans rfl

end Notation

end HandPath
