import HandPath.Message.Basic
import HandPath.Proofs.Precedence
import HandPath.Service.Respond

/-!
# HandPath.Proofs.Failure — failures that are no mistakes

A text that is not read has one of the twelve mistakes, whose message can always be told, except in
two cases: reading reaches a group without a component, or a group with a numeral that holds an
information separator.  `Reaches text inside juggler beat` says that all that stands before the
group `inside` is in order, and so which of several groups decides.

Main statement (`ofNotation_outcome`): exactly then reading fails otherwise than with a mistake, and
exactly then the service answers with status 500.
-/

namespace HandPath.Notation

open Text Decimal Token Traversal

/-! ### Groups -/

/-- Some component of the group is a numeral that holds an information separator, and the components
before it denote numbers. -/
def Separated (inside part : List Char) : Prop :=
  ∃ before after, components inside = before ++ part :: after ∧
    (∀ ds ∈ before, ∃ v, ComponentText ds v) ∧ (∃ d, NumeralText part d) ∧
      ∃ c ∈ part, isInformationSeparator c = true

variable {inside part : List Char} {juggler beat : Option Int} {f : Failure}

/-- Reading a group fails with a mistake, for want of a component or because of a separator. -/
theorem readGroup_error_cases (h : readGroup inside juggler beat = .error f) :
    f = .mistake (.badCoordinate inside) juggler beat ∨
      components inside = [] ∧ f = .emptyGroup inside juggler beat ∨
        ∃ part, Separated inside part ∧ f = .unreadableNumeral part := by
  rcases readGroup_eq_error_iff.1 h with h | ⟨before, cs, after, heq, hbefore, hcs⟩
  · exact .inr (.inl h)
  cases hcs with
  | noNumeral => exact .inl rfl
  | infinite => exact .inl rfl
  | separator hd hc hsep =>
    exact .inr (.inr ⟨cs, ⟨before, after, heq, hbefore, ⟨_, hd⟩, _, hc, hsep⟩, rfl⟩)

theorem readGroup_of_separated (h : Separated inside part) :
    readGroup inside juggler beat = .error (.unreadableNumeral part) := by
  obtain ⟨before, after, heq, hbefore, ⟨d, hd⟩, c, hc, hsep⟩ := h
  exact readGroup_eq_error_iff.2 (.inr ⟨before, part, after, heq, hbefore, .separator hd hc hsep⟩)

theorem readGroup_of_components_eq_nil (h : components inside = []) :
    readGroup inside juggler beat = .error (.emptyGroup inside juggler beat) :=
  readGroup_eq_error_iff.2 (.inl ⟨h, rfl⟩)

/-! ### Segments -/

/-- The segment is in order up to the group `inside`, which follows the tokens `before`: only the
coordinates of what comes after it can still be wrong. -/
def ArrivesAt (juggler : Int) (cs : List Char) (before : List Token) (inside : List Char) : Prop :=
  ∃ after, Lexes cs (before ++ .group inside :: after) [] ∧
    (currentBeat (before ++ .group inside :: after)).any isWaypoint = false ∧
    Passes (markCheck juggler) [] (before ++ .group inside :: after) ∧
    Passes (coordinateCheck juggler) [] before

theorem coordinateCheck_group {juggler : Int} {before : List Token} :
    coordinateCheck juggler before (.group inside) = some f ↔
      readGroup inside juggler (some (ends before : Int)) = .error f := by
  rw [coordinateCheck]
  cases readGroup inside juggler (some (ends before : Int)) with
  | error f' => simp
  | ok c => simp

theorem segmentFault_of_arrivesAt {juggler : Int} {cs : List Char} {before : List Token}
    (h : ArrivesAt juggler cs before inside)
    (hf : readGroup inside juggler (some (ends before : Int)) = .error f) :
    SegmentFault juggler cs f := by
  obtain ⟨after, hlex, hopen, hmarks, hpasses⟩ := h
  refine .coordinate hlex hopen hmarks ⟨before, .group inside, after, rfl, hpasses, ?_⟩
  exact coordinateCheck_group.2 hf

/-- A segment fails with a mistake, or as a group at which reading arrives. -/
theorem segmentFault_cases {juggler : Int} {cs : List Char} (h : SegmentFault juggler cs f) :
    (∃ v b, f = .mistake v juggler b) ∨ ∃ before inside, ArrivesAt juggler cs before inside ∧
      readGroup inside juggler (some (ends before : Int)) = .error f := by
  -- All failures but those of groups are mistakes, and a group is read if all before it passes.
  cases h with
  | lexical => exact .inl ⟨_, _, rfl⟩
  | ending => exact .inl ⟨_, _, rfl⟩
  | mark _ _ hfirst =>
    obtain ⟨before, t, _, _, _, ht⟩ := hfirst
    obtain ⟨v, -, rfl⟩ := Option.map_eq_some_iff.1 ht
    exact .inl ⟨_, _, rfl⟩
  | coordinate hlex hopen hmarks hfirst =>
    obtain ⟨before, t, after, rfl, hpasses, ht⟩ := hfirst
    cases t with
    | group inside =>
      exact .inr ⟨before, inside, ⟨after, hlex, hopen, hmarks, hpasses⟩,
        coordinateCheck_group.1 ht⟩
    | beatEnd =>
      rw [coordinateCheck] at ht
      split_ifs at ht with h0 hk
      · exact .inl ⟨_, _, (Option.some.inj ht).symm⟩
      · exact .inl ⟨_, _, (Option.some.inj ht).symm⟩
    | blank => cases ht
    | throwMark => cases ht
    | catchMark => cases ht

/-! ### Texts -/

/-- Reading the text reaches the group `inside`, in the segment with number `juggler` and the beat
with number `beat`, without a failure. -/
def Reaches (text : String) (inside : List Char) (juggler beat : Nat) : Prop :=
  ∃ finished cs after before, segmentTexts text.toList = finished ++ cs :: after ∧
    (∀ ds ∈ finished, Compiles ds) ∧ juggler = finished.length + 1 ∧
    ArrivesAt (juggler : Int) cs before inside ∧ beat = ends before

theorem ofNotation_of_reaches {text : String} {juggler beat : Nat}
    (h : Reaches text inside juggler beat)
    (hf : readGroup inside (juggler : Int) (some (beat : Int)) = .error f) :
    Pattern.ofNotation text = .error f := by
  obtain ⟨finished, cs, after, before, heq, hfinished, rfl, hcs, rfl⟩ := h
  rw [Pattern.ofNotation, result_eq_error_iff, run_failure_eq_some_iff]
  exact .inr ⟨finished, cs, after, heq, hfinished, segmentFault_of_arrivesAt hcs hf⟩

/-- A text fails with a mistake, or as a group that reading reaches. -/
theorem ofNotation_error_cases {text : String} (h : Pattern.ofNotation text = .error f) :
    (∃ v j b, f = .mistake v j b) ∨ ∃ inside juggler beat, Reaches text inside juggler beat ∧
      readGroup inside (juggler : Int) (some (beat : Int)) = .error f := by
  rw [Pattern.ofNotation, result_eq_error_iff, run_failure_eq_some_iff] at h
  rcases h with ⟨-, rfl⟩ | ⟨finished, cs, after, heq, hfinished, hcs⟩
  · exact .inl ⟨_, _, _, rfl⟩
  rcases segmentFault_cases hcs with ⟨v, b, rfl⟩ | ⟨before, inside, hcs, hf⟩
  · exact .inl ⟨_, _, _, rfl⟩
  · exact .inr ⟨inside, finished.length + 1, ends before,
      ⟨finished, cs, after, before, heq, hfinished, rfl, hcs, rfl⟩, hf⟩

end HandPath.Notation

namespace HandPath

open Notation Service

variable {text : String}

theorem ofNotation_eq_emptyGroup_iff {inside : List Char} {juggler beat : Option Int} :
    Pattern.ofNotation text = .error (.emptyGroup inside juggler beat) ↔
      ∃ m n : Nat, juggler = some (m : Int) ∧ beat = some (n : Int) ∧
        Reaches text inside m n ∧ ∀ c ∈ inside, c = ',' := by
  refine ⟨?_, ?_⟩
  · intro h
    rcases ofNotation_error_cases h with ⟨_, _, _, h⟩ | ⟨inside', m, n, hreach, hf⟩
    · nomatch h
    rcases readGroup_error_cases hf with h | ⟨hnil, h⟩ | ⟨_, _, h⟩
    · nomatch h
    · cases h
      exact ⟨m, n, rfl, rfl, hreach, components_eq_nil_iff.1 hnil⟩
    · nomatch h
  · rintro ⟨m, n, rfl, rfl, hreach, hcommas⟩
    have hnil := components_eq_nil_iff.2 hcommas
    exact ofNotation_of_reaches hreach (readGroup_of_components_eq_nil hnil)

theorem ofNotation_eq_unreadableNumeral_iff {part : List Char} :
    Pattern.ofNotation text = .error (.unreadableNumeral part) ↔
      ∃ inside m n, Reaches text inside m n ∧ Separated inside part := by
  refine ⟨?_, ?_⟩
  · intro h
    rcases ofNotation_error_cases h with ⟨_, _, _, h⟩ | ⟨inside, m, n, hreach, hf⟩
    · nomatch h
    rcases readGroup_error_cases hf with h | ⟨_, h⟩ | ⟨_, hsep, h⟩
    · nomatch h
    · nomatch h
    · cases h
      exact ⟨inside, m, n, hreach, hsep⟩
  · rintro ⟨inside, m, n, hreach, hsep⟩
    exact ofNotation_of_reaches hreach (readGroup_of_separated hsep)

/-- Reading has four outcomes; there is never an index out of range. -/
theorem ofNotation_cases (text : String) :
    (∃ p, Pattern.ofNotation text = .ok p) ∨
      (∃ f, Pattern.ofNotation text = .error (.fault f)) ∨
      (∃ inside juggler beat, Pattern.ofNotation text = .error (.emptyGroup inside juggler beat)) ∨
      ∃ part, Pattern.ofNotation text = .error (.unreadableNumeral part) := by
  cases h : Pattern.ofNotation text with
  | ok p => exact .inl ⟨p, rfl⟩
  | error f =>
    rcases ofNotation_error_cases h with ⟨_, _, _, rfl⟩ | ⟨_, _, _, _, hf⟩
    · exact .inr (.inl ⟨_, rfl⟩)
    rcases readGroup_error_cases hf with rfl | ⟨_, rfl⟩ | ⟨_, _, rfl⟩
    · exact .inr (.inl ⟨_, rfl⟩)
    · exact .inr (.inr (.inl ⟨_, _, _, rfl⟩))
    · exact .inr (.inr (.inr ⟨_, rfl⟩))

/-- A request to compile a text is answered with status 500 exactly if the text fails otherwise than
with a mistake. -/
theorem status_eq_iff {r : Request} (hroute : r.route? = .ok .compile)
    (hbody : compileBody r.body = .ok text) : r.response.status = 500 ↔
      (∃ inside juggler beat,
        Pattern.ofNotation text = .error (.emptyGroup inside juggler beat)) ∨
      ∃ part, Pattern.ofNotation text = .error (.unreadableNumeral part) := by
  have hresponse : r.response = answer text fun p => .document 200 p.view := by
    rw [Request.response_of_route? hroute]
    simp only [Route.respond, hbody]
  rw [hresponse, answer]
  rcases ofNotation_cases text with ⟨p, h⟩ | ⟨f, h⟩ | ⟨_, _, _, h⟩ | ⟨_, h⟩
  · simp [h, Response.status]
  · simp [h, Response.status, Response.detail]
  · simp [h, Response.status]
  · simp [h, Response.status]

/-- **What can come of a text.**  Reading gives a pattern, or a fault whose message can be told, or
fails in one of two ways: exactly if it reaches a group of nothing but commas, and exactly if it
reaches a group with a numeral that holds an information separator.  Exactly then a request to
compile the text is answered with status 500. -/
theorem Pattern.ofNotation_outcome (text : String) :
    ((∃ p, Pattern.ofNotation text = .ok p) ∨
      (∃ f : Fault, Pattern.ofNotation text = .error (.fault f) ∧ f.violation.kind ∈ Kind.all ∧
        messageFor f.violation.kind.name f.violation.arguments f.juggler f.beat =
          .ok f.message) ∨
      (∃ inside juggler beat, Pattern.ofNotation text = .error (.emptyGroup inside juggler beat)) ∨
      ∃ part, Pattern.ofNotation text = .error (.unreadableNumeral part)) ∧
    (∀ inside juggler beat,
      Pattern.ofNotation text = .error (.emptyGroup inside juggler beat) ↔
        ∃ m n : Nat, juggler = some (m : Int) ∧ beat = some (n : Int) ∧
          Reaches text inside m n ∧ ∀ c ∈ inside, c = ',') ∧
    (∀ part, Pattern.ofNotation text = .error (.unreadableNumeral part) ↔
      ∃ inside m n, Reaches text inside m n ∧ Separated inside part) ∧
    ∀ r : Request, r.route? = .ok .compile → compileBody r.body = .ok text →
      (r.response.status = 500 ↔ ∃ inside m n, Reaches text inside m n ∧
        ((∀ c ∈ inside, c = ',') ∨ ∃ part, Separated inside part)) := by
  refine ⟨?_, fun _ _ _ => ofNotation_eq_emptyGroup_iff,
    fun _ => ofNotation_eq_unreadableNumeral_iff, fun r hroute hbody => ?_⟩
  · rcases ofNotation_cases text with h | ⟨f, h⟩ | h | h
    · exact .inl h
    · exact .inr (.inl ⟨f, h, Kind.mem_all _, messageFor_name f⟩)
    · exact .inr (.inr (.inl h))
    · exact .inr (.inr (.inr h))
  · rw [status_eq_iff hroute hbody]
    simp only [ofNotation_eq_emptyGroup_iff, ofNotation_eq_unreadableNumeral_iff]
    refine ⟨?_, ?_⟩
    · rintro (⟨inside, _, _, m, n, -, -, hreach, hcommas⟩ | ⟨part, inside, m, n, hreach, hsep⟩)
      · exact ⟨inside, m, n, hreach, .inl hcommas⟩
      · exact ⟨inside, m, n, hreach, .inr ⟨part, hsep⟩⟩
    · rintro ⟨inside, m, n, hreach, hcommas | ⟨part, hsep⟩⟩
      · exact .inl ⟨inside, _, _, m, n, rfl, rfl, hreach, hcommas⟩
      · exact .inr ⟨part, inside, m, n, hreach, hsep⟩

/-- A text without an empty group whose reading ends neither with a pattern nor with a mistake. -/
theorem ofNotation_separator :
    Pattern.ofNotation "(\u001c1)(2)." = .error (.unreadableNumeral ['\u001c', '1']) ∧
      (Request.response ⟨"POST", "/hands/compile",
        some (.object [("notation", .string "(\u001c1)(2).")])⟩).status = 500 :=
  ⟨rfl, by decide +kernel⟩

end HandPath
