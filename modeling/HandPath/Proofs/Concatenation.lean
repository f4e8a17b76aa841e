import HandPath.Proofs.Failure
import HandPath.Proofs.WellFormed

/-!
# HandPath.Proofs.Concatenation — texts on either side of a delimiter

A segment compiles in the same way under every number: only the place of a failure is another
(`compileSegment_add`).  A run over segment texts that stand after others is a run that starts under
a later number (`runFrom_append_result`, `runFrom_add_result`).

Main statement (`ofNotation_append`): two texts with a delimiter between them denote the segments of
the first and then those of the second; the failure of the first text is theirs, and that of the
second has its number raised by the number of segments of the first.
-/

namespace HandPath

open Notation

/-- The fault with the number of its segment raised by `n`. -/
def Fault.shift (n : Int) (f : Fault) : Fault := f.move (Option.map (· + n)) id

/-- The failure with the number of its segment raised by `n`, where it has one. -/
def Failure.shift (n : Int) (f : Failure) : Failure := f.move (Option.map (· + n)) id

namespace Notation

open Token Traversal

variable {juggler : Int} {f : Failure}

/-! ### Segments under another number -/

theorem readGroup_add (inside : List Char) (beat : Option Int) (n : Int) :
    readGroup inside (some (juggler + n)) beat =
      (readGroup inside (some juggler) beat).mapError (.shift n) :=
  readGroup_move (Option.map (· + n)) id inside (some juggler) beat

theorem markCheck_add (n : Int) : markCheck (juggler + n) =
    fun before t => (markCheck juggler before t).map (.shift n) := by
  funext before t
  rw [markCheck, markCheck, Option.map_map]
  rfl

theorem coordinateCheck_add (n : Int) : coordinateCheck (juggler + n) =
    fun before t => (coordinateCheck juggler before t).map (.shift n) := by
  funext before t
  cases t with
  | group inside =>
    rw [coordinateCheck, coordinateCheck, readGroup_add]
    cases readGroup inside (some juggler) (some (ends before : Int)) with
    | error f => rfl
    | ok c => rfl
  | beatEnd =>
    rw [coordinateCheck, coordinateCheck]
    split_ifs <;> rfl
  | blank => rfl
  | throwMark small => rfl
  | catchMark small => rfl

/-- A segment has the same failure under another number, apart from the number. -/
theorem SegmentFault.shift {cs : List Char} (h : SegmentFault juggler cs f) (n : Int) :
    SegmentFault (juggler + n) cs (f.shift n) := by
  -- The same check finds the fault under every number; only what it reports is shifted.
  cases h with
  | lexical hlex hstuck => exact .lexical hlex hstuck
  | ending hlex hopen => exact .ending hlex hopen
  | mark hlex hopen hfirst =>
    refine .mark hlex hopen ?_
    rw [markCheck_add]
    exact hfirst.map _
  | coordinate hlex hopen hpasses hfirst =>
    refine .coordinate hlex hopen ?_ ?_
    · rw [markCheck_add]
      exact (passes_map _).2 hpasses
    · rw [coordinateCheck_add]
      exact hfirst.map _

/-- The number of a segment only places its failure. -/
theorem compileSegment_add (juggler n : Int) (cs : List Char) :
    compileSegment (juggler + n) cs = (compileSegment juggler cs).mapError (.shift n) := by
  cases h : compileSegment juggler cs with
  | ok g => exact compileSegment_of_segmentText _ (segmentText_of_compileSegment h)
  | error f => exact compileSegment_eq_error_iff.2 ((compileSegment_eq_error_iff.1 h).shift n)

/-- A fault in a segment has the number of the segment. -/
theorem SegmentFault.juggler_eq {cs : List Char} {f : Fault}
    (h : SegmentFault juggler cs (.fault f)) : f.juggler = some juggler := by
  rcases segmentFault_cases h with ⟨v, b, hf⟩ | ⟨before, inside, -, hf⟩
  · cases hf
    rfl
  · rcases readGroup_error_cases hf with hf | ⟨-, hf⟩ | ⟨part, -, hf⟩
    · cases hf
      rfl
    · nomatch hf
    · nomatch hf

/-! ### Runs -/

/-- A run that starts under another number has the same result, apart from the numbers. -/
theorem runFrom_add_result (juggler n : Int) (texts : List (List Char)) :
    (runFrom (juggler + n) texts).result = (runFrom juggler texts).result.mapError (.shift n) := by
  induction texts generalizing juggler with
  | nil => rfl
  | cons text texts ih =>
    have hnumber : juggler + n + 1 = juggler + 1 + n := by omega
    rw [runFrom_cons_result, runFrom_cons_result, hnumber, compileSegment_add, ih, mapError_bind]
    cases compileSegment juggler text with
    | error f => rfl
    | ok g =>
      cases (runFrom (juggler + 1) texts).result with
      | error f => rfl
      | ok p => rfl

/-- A run over further texts goes on under the next number. -/
theorem runFrom_append_result (juggler : Int) (texts texts' : List (List Char)) :
    (runFrom juggler (texts ++ texts')).result = (do
      let p ← (runFrom juggler texts).result
      let q ← (runFrom (juggler + texts.length) texts').result
      return ⟨p.segments ++ q.segments⟩) := by
  induction texts generalizing juggler with
  | nil =>
    rw [List.nil_append, List.length_nil, Int.natCast_zero, Int.add_zero]
    cases (runFrom juggler texts').result with
    | error f => rfl
    | ok q => rfl
  | cons text texts ih =>
    have hnumber : juggler + ((text :: texts).length : Int) = juggler + 1 + texts.length := by
      rw [List.length_cons]
      omega
    rw [List.cons_append, runFrom_cons_result, runFrom_cons_result, ih, hnumber]
    cases compileSegment juggler text with
    | error f => rfl
    | ok g =>
      cases (runFrom (juggler + 1) texts).result with
      | error f => rfl
      | ok p =>
        cases (runFrom (juggler + 1 + texts.length) texts').result with
        | error f => rfl
        | ok q => rfl

/-! ### Texts -/

/-- What comes of a text depends on its segment texts only. -/
theorem ofNotation_congr {text text' : String}
    (h : segmentTexts text.toList = segmentTexts text'.toList) :
    Pattern.ofNotation text = Pattern.ofNotation text' := by
  rw [Pattern.ofNotation, Pattern.ofNotation, run, run, h]

/-- The fault of a text that has a segment has the number of a segment. -/
theorem exists_juggler_eq {text : String} (hne : segmentTexts text.toList ≠ []) {f : Fault}
    (h : Pattern.ofNotation text = .error (.fault f)) : ∃ j : Int, f.juggler = some j := by
  rw [Pattern.ofNotation, result_eq_error_iff, run_failure_eq_some_iff] at h
  rcases h with ⟨hnil, -⟩ | ⟨before, cs, after, -, -, hcs⟩
  · exact absurd hnil hne
  · exact ⟨_, hcs.juggler_eq⟩

/-- Texts with the segment texts of `a` and then those of `b`, if both have one. -/
theorem ofNotation_of_append {text a b : String} (ha : segmentTexts a.toList ≠ [])
    (hb : segmentTexts b.toList ≠ [])
    (h : segmentTexts text.toList = segmentTexts a.toList ++ segmentTexts b.toList) :
    Pattern.ofNotation text = (do
      let p ← Pattern.ofNotation a
      let q ← (Pattern.ofNotation b).mapError (.shift (segmentTexts a.toList).length)
      return ⟨p.segments ++ q.segments⟩) := by
  have hne : segmentTexts text.toList ≠ [] := by
    rw [h]
    exact List.append_ne_nil_of_left_ne_nil ha _
  rw [ofNotation_of_ne_nil hne, ofNotation_of_ne_nil ha, ofNotation_of_ne_nil hb, h,
    runFrom_append_result, runFrom_add_result]

end Notation

/-- **Texts on either side of a delimiter.**  Their segment texts are those of the first and then
those of the second.  If one of them has none, the outcome is that of the other.  Otherwise the
first that fails decides, and a fault of the second keeps its kind, its arguments and its beat while
its number, which its message tells, is raised by the number of segments of the first; if neither
fails, the segments are those of both. -/
theorem Pattern.ofNotation_append (a b : String) {d : Char} (hd : d = '|' ∨ d = '!') :
    segmentTexts (a ++ d.toString ++ b).toList =
        segmentTexts a.toList ++ segmentTexts b.toList ∧
      (segmentTexts a.toList = [] →
        Pattern.ofNotation (a ++ d.toString ++ b) = Pattern.ofNotation b) ∧
      (segmentTexts b.toList = [] →
        Pattern.ofNotation (a ++ d.toString ++ b) = Pattern.ofNotation a) ∧
      (segmentTexts a.toList = [] → segmentTexts b.toList = [] →
        Pattern.ofNotation (a ++ d.toString ++ b) = .error (.mistake .emptyNotation none none)) ∧
      (segmentTexts a.toList ≠ [] → segmentTexts b.toList ≠ [] →
        Pattern.ofNotation (a ++ d.toString ++ b) =
          match Pattern.ofNotation a, Pattern.ofNotation b with
          | .error f, _ => .error f
          | .ok _, .error f => .error (f.shift (segmentTexts a.toList).length)
          | .ok p, .ok q => .ok ⟨p.segments ++ q.segments⟩) ∧
      ∀ f : Fault, segmentTexts b.toList ≠ [] → Pattern.ofNotation b = .error (.fault f) →
        ∃ j : Int, f.juggler = some j ∧
          f.shift (segmentTexts a.toList).length =
            ⟨f.violation, some (j + (segmentTexts a.toList).length), f.beat⟩ ∧
          (f.shift (segmentTexts a.toList).length).message =
            (Catalogue.template f.violation.kind).expand f.violation.arguments ++
              placeText (some (j + (segmentTexts a.toList).length)) f.beat := by
  have hdelimiter : isDelimiter d = true := by
    rcases hd with rfl | rfl <;> rfl
  have htexts : segmentTexts (a ++ d.toString ++ b).toList =
      segmentTexts a.toList ++ segmentTexts b.toList := by
    rw [← segmentTexts_append hdelimiter]
    simp
  refine ⟨htexts, ?_, ?_, ?_, ?_, ?_⟩
  · intro ha
    exact ofNotation_congr (by rw [htexts, ha, List.nil_append])
  · intro hb
    exact ofNotation_congr (by rw [htexts, hb, List.append_nil])
  · intro ha hb
    exact ofNotation_of_eq_nil (by rw [htexts, ha, hb, List.nil_append])
  · intro ha hb
    rw [ofNotation_of_append ha hb htexts]
    cases Pattern.ofNotation a with
    | error f => rfl
    | ok p =>
      cases Pattern.ofNotation b with
      | error f => rfl
      | ok q => rfl
  · intro f hb hf
    obtain ⟨j, hj⟩ := exists_juggler_eq hb hf
    have hshift : f.shift (segmentTexts a.toList).length =
        ⟨f.violation, some (j + (segmentTexts a.toList).length), f.beat⟩ := by
      rw [Fault.shift, Fault.move, hj]
      rfl
    refine ⟨j, hj, hshift, ?_⟩
    rw [hshift]
    rfl

/-- The second text fails in its own first segment, which is the second of both. -/
theorem ofNotation_append_bar : ('|' = '|' ∨ '|' = '!') ∧
    Pattern.ofNotation "(1)(2).|(3)(4).t(5)." =
      .error (.mistake .tooFewCoords (some 2) (some 1)) := by
  refine ⟨.inl rfl, ?_⟩
  have hbar : '|' = '|' ∨ '|' = '!' := .inl rfl
  have h := (Pattern.ofNotation_append "(1)(2)." "(3)(4).t(5)." hbar).2.2.2.2.1
    (by decide) (by decide)
  exact h.trans rfl

end HandPath
