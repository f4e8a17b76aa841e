import HandPath.Proofs.Concatenation
import HandPath.Proofs.Lookup
import Mathlib.Data.List.Rotate

/-!
# HandPath.Proofs.Cycles — segments are used again from the start

Which segment a juggler has depends on the cycle of segments only: repeating all segments
(`segment_replicate`) cannot be seen in the answers to questions, and turning the cycle by one
segment (`segment_rotate`) moves every answer to the juggler before.

Main statement (`ofNotation_copies`): copies of a text that are parted by delimiters fail as the
text does, or compile to a pattern that answers as that of the text does; and so does the text that
begins with its second segment and ends with its first, with every juggler's number lower by one.
Only the numbers that a refusal is told with tell two jugglers of the same segment apart
(`SameOutcome`): where one of them can be written and the other cannot, the errors differ
(`ofNotation_rotate_of_long_number`).
-/

namespace HandPath

open Notation Traversal

/-! ### Lists -/

/-- The places of a repeated list are those of the list, over and over. -/
theorem getElem?_flatten_replicate {α : Type} (xs : List α) (m : Nat) {i : Nat}
    (hi : i < m * xs.length) : (List.replicate m xs).flatten[i]? = xs[i % xs.length]? := by
  induction m generalizing i with
  | zero => omega
  | succ m ih =>
    rw [Nat.succ_mul] at hi
    rw [List.replicate_succ, List.flatten_cons]
    by_cases hlt : i < xs.length
    · rw [List.getElem?_append_left hlt, Nat.mod_eq_of_lt hlt]
    · have hle : xs.length ≤ i := Nat.le_of_not_lt hlt
      rw [List.getElem?_append_right hle, ih (by omega), ← Nat.mod_eq_sub_mod hle]

theorem length_flatten_replicate {α : Type} (xs : List α) (m : Nat) :
    (List.replicate m xs).flatten.length = m * xs.length := by
  rw [List.length_flatten, List.map_replicate, List.sum_replicate_nat]

theorem flatten_replicate_ne_nil {α : Type} {xs : List α} (h : xs ≠ []) (m : Nat) :
    (List.replicate (m + 1) xs).flatten ≠ [] := by
  rw [List.replicate_succ, List.flatten_cons]
  exact List.append_ne_nil_of_left_ne_nil h _

theorem forall₂_flatten_replicate {α β : Type} {R : α → β → Prop} {xs : List α} {ys : List β}
    (h : List.Forall₂ R xs ys) (m : Nat) :
    List.Forall₂ R (List.replicate m xs).flatten (List.replicate m ys).flatten := by
  induction m with
  | zero => exact .nil
  | succ m ih =>
    rw [List.replicate_succ, List.replicate_succ, List.flatten_cons, List.flatten_cons]
    exact List.rel_append h ih

/-! ### The segment of a juggler -/

namespace Pattern

variable {p q : Pattern} {juggler juggler' n index : Int}

/-- The segment of a juggler is found by its index, also in a pattern without segments. -/
theorem segment_eq (p : Pattern) (juggler : Int) : p.segment juggler =
    match p.segments[((juggler - 1) % (p.jugglers : Int)).toNat]? with
    | some g => .ok g
    | none => .error .noSegments := by
  by_cases hp : p.segments = []
  · rw [segment, segmentIndex, hp]
    rfl
  · rw [segment, segmentIndex_of_ne_nil hp]
    rfl

/-- Jugglers have the same segment if the index of the one leads to that of the other. -/
theorem segment_eq_of_getElem? (hq : q.segments ≠ [])
    (h : ∀ i : Nat, i < q.jugglers → (i : Int) = (juggler - 1) % (q.jugglers : Int) →
      q.segments[i]? = p.segments[((juggler' - 1) % (p.jugglers : Int)).toNat]?) :
    q.segment juggler = p.segment juggler' := by
  obtain ⟨i, -, -, hi, hlt, -, -⟩ := exists_segment hq juggler
  rw [segment_eq, segment_eq, ← h i hlt hi, ← hi, Int.toNat_natCast]

/-- Repeating the segments of a pattern gives every juggler the same segment. -/
theorem segment_replicate (hp : p.segments ≠ []) (m : Nat) (juggler : Int) :
    segment ⟨(List.replicate (m + 1) p.segments).flatten⟩ juggler = p.segment juggler := by
  have hlength : jugglers ⟨(List.replicate (m + 1) p.segments).flatten⟩ = (m + 1) * p.jugglers :=
    length_flatten_replicate ..
  refine segment_eq_of_getElem? (flatten_replicate_ne_nil hp m) fun i hlt hi => ?_
  rw [hlength] at hlt hi
  -- the indices are the same number modulo the number of segments of `p`
  have hmod : (juggler - 1) % (p.jugglers : Int) = ((i % p.jugglers : Nat) : Int) := by
    rw [Int.natCast_emod, hi, Int.natCast_mul, Int.emod_emod_of_dvd _ (Int.dvd_mul_left ..)]
  rw [hmod, Int.toNat_natCast]
  exact getElem?_flatten_replicate _ _ hlt

/-- After turning the segments by one place every juggler has the segment of the next one. -/
theorem segment_rotate (hp : p.segments ≠ []) (juggler : Int) :
    segment ⟨p.segments.rotate 1⟩ juggler = p.segment (juggler + 1) := by
  have hlength : jugglers ⟨p.segments.rotate 1⟩ = p.jugglers := List.length_rotate ..
  refine segment_eq_of_getElem? ?_ fun i hlt hi => ?_
  · rwa [Ne, List.rotate_eq_nil_iff]
  · rw [hlength] at hlt hi
    have hmod : (juggler + 1 - 1) % (p.jugglers : Int) = (((i + 1) % p.jugglers : Nat) : Int) := by
      rw [show juggler + 1 - 1 = juggler - 1 + 1 by omega, ← Int.emod_add_emod, ← hi]
      rfl
    rw [hmod, Int.toNat_natCast]
    exact List.getElem?_rotate hlt

/-! ### Questions about the same segment -/

/-- What `q` answers one juggler is what `p` answers another, but for the number that a refusal is
told with. -/
structure AnswersAs (q : Pattern) (juggler : Int) (p : Pattern) (juggler' n index : Int) :
    Prop where
  period : q.period juggler = p.period juggler'
  waypointCount :
    SameOutcome juggler juggler' n (q.waypointCount juggler n) (p.waypointCount juggler' n)
  catchIndex : SameOutcome juggler juggler' n (q.catchIndex juggler n) (p.catchIndex juggler' n)
  coordinate : q.coordinate juggler n index = p.coordinate juggler' n index

/-- Patterns that give a juggler the same segment answer the juggler alike. -/
theorem answers_congr (h : q.segment juggler = p.segment juggler) :
    q.period juggler = p.period juggler ∧
      q.waypointCount juggler n = p.waypointCount juggler n ∧
      q.catchIndex juggler n = p.catchIndex juggler n ∧
      q.coordinate juggler n index = p.coordinate juggler n index := by
  have hbeat : q.beat juggler n = p.beat juggler n := by rw [beat, beat, h]
  exact ⟨by rw [period, period, h], by rw [waypointCount, waypointCount, hbeat],
    by rw [catchIndex, catchIndex, hbeat], by rw [coordinate, coordinate, h]⟩

theorem answersAs_of_segment_eq (hp : p.segments ≠ [])
    (h : q.segment juggler = p.segment juggler') : AnswersAs q juggler p juggler' n index := by
  obtain ⟨-, g, -, -, -, -, hg'⟩ := exists_segment hp juggler'
  have hg : q.segment juggler = .ok g := h.trans hg'
  have hbeat := beat_of_segment_eq (n := n) hg hg'
  exact {
    period := by rw [period_of_segment hg, period_of_segment hg']
    waypointCount := hbeat.map _
    catchIndex := hbeat.map _
    coordinate := by rw [coordinate_of_segment hg, coordinate_of_segment hg'] }

end Pattern

/-! ### Texts -/

/-- A text and further copies of it, each behind a seam. -/
def copies (text : List Char) (seams : List (List Char)) : List Char :=
  text ++ seams.flatMap (· ++ text)

/-- One delimiter or more. -/
def IsSeam (cs : List Char) : Prop := cs ≠ [] ∧ ∀ d ∈ cs, isDelimiter d = true

instance (cs : List Char) : Decidable (IsSeam cs) := inferInstanceAs (Decidable (_ ∧ _))

/-- Copies of a text behind another text have their segment texts behind those of the other. -/
theorem segmentTexts_append_copies (front text : List Char) {seams : List (List Char)}
    (h : ∀ seam ∈ seams, IsSeam seam) : segmentTexts (front ++ seams.flatMap (· ++ text)) =
      segmentTexts front ++ (List.replicate seams.length (segmentTexts text)).flatten := by
  induction seams generalizing front with
  | nil => simp
  | cons seam seams ih =>
    obtain ⟨hseam, hseams⟩ := List.forall_mem_cons.1 h
    rw [List.flatMap_cons, List.append_assoc, segmentTexts_append_seam hseam.1 hseam.2,
      ih text hseams, List.length_cons, List.replicate_succ, List.flatten_cons]

theorem segmentTexts_copies (text : List Char) {seams : List (List Char)}
    (h : ∀ seam ∈ seams, IsSeam seam) : segmentTexts (copies text seams) =
      (List.replicate (seams.length + 1) (segmentTexts text)).flatten := by
  rw [copies, segmentTexts_append_copies text text h, List.replicate_succ, List.flatten_cons]

/-- Copies of a text compile to the segments of the text, over and over. -/
theorem ofNotation_copies_of_ok {text : String} {p : Pattern} {seams : List (List Char)}
    (hseams : ∀ seam ∈ seams, IsSeam seam) (h : Pattern.ofNotation text = .ok p) :
    Pattern.ofNotation (String.ofList (copies text.toList seams)) =
      .ok ⟨(List.replicate (seams.length + 1) p.segments).flatten⟩ := by
  obtain ⟨hne, hsegments⟩ := ofNotation_eq_ok_iff_segments.1 h
  refine ofNotation_eq_ok_iff_segments.2 ?_
  rw [String.toList_ofList, segmentTexts_copies _ hseams]
  exact ⟨flatten_replicate_ne_nil hne _, forall₂_flatten_replicate hsegments _⟩

/-- Copies of a text fail as the first of them. -/
theorem ofNotation_copies_of_error {text : String} {f : Failure} {seams : List (List Char)}
    (hseams : ∀ seam ∈ seams, IsSeam seam) (h : Pattern.ofNotation text = .error f) :
    Pattern.ofNotation (String.ofList (copies text.toList seams)) = .error f := by
  have htexts := segmentTexts_copies text.toList hseams
  rw [List.replicate_succ, List.flatten_cons] at htexts
  by_cases hnil : segmentTexts text.toList = []
  · rw [← h]
    refine ofNotation_congr ?_
    rw [String.toList_ofList, htexts, hnil]
    simp
  · have hne : segmentTexts (String.ofList (copies text.toList seams)).toList ≠ [] := by
      rw [String.toList_ofList, htexts]
      exact List.append_ne_nil_of_left_ne_nil hnil _
    rw [ofNotation_of_ne_nil hnil] at h
    rw [ofNotation_of_ne_nil hne, String.toList_ofList, htexts, runFrom_append_result, h]
    rfl

/-- A text with the first segment text at the end compiles to the segments turned by one place. -/
theorem ofNotation_rotate {text : String} {p : Pattern} (h : Pattern.ofNotation text = .ok p)
    {first : List Char} {rest : List (List Char)}
    (htexts : segmentTexts text.toList = first :: rest) :
    Pattern.ofNotation (String.ofList (['|'].intercalate (rest ++ [first]))) =
      .ok ⟨p.segments.rotate 1⟩ := by
  obtain ⟨-, hsegments⟩ := ofNotation_eq_ok_iff_segments.1 h
  have hmem : ∀ w ∈ rest ++ [first], w ∈ segmentTexts text.toList := by
    intro w hw
    rw [htexts]
    simpa [or_comm] using hw
  rw [htexts, List.forall₂_cons_left_iff] at hsegments
  obtain ⟨g, gs, hg, hgs, hp⟩ := hsegments
  refine ofNotation_eq_ok_iff_segments.2 ?_
  rw [String.toList_ofList, segmentTexts_intercalate fun w hw => of_mem_segmentTexts (hmem w hw),
    hp, List.rotate_cons_succ, List.rotate_zero]
  exact ⟨by simp, List.rel_append hgs (.cons hg .nil)⟩

/-- **Segments are used again from the start.**  Copies of a text, with one delimiter or more
between any two, fail as the text does.  If the text compiles, they compile to as many times the
segments and answer every question as the text does; and with the first segment text moved to the
end, every juggler is answered as the next one is by the text, a refusal being told with the number
of the juggler who is refused. -/
theorem Pattern.ofNotation_copies (text : String) {seams : List (List Char)}
    (hseams : ∀ seam ∈ seams, IsSeam seam) :
    (∀ f, Pattern.ofNotation text = .error f →
      Pattern.ofNotation (String.ofList (copies text.toList seams)) = .error f) ∧
    ∀ p, Pattern.ofNotation text = .ok p →
      (∃ q, Pattern.ofNotation (String.ofList (copies text.toList seams)) = .ok q ∧
        q.jugglers = (seams.length + 1) * p.jugglers ∧
        ∀ juggler n index : Int,
          q.period juggler = p.period juggler ∧
          q.waypointCount juggler n = p.waypointCount juggler n ∧
          q.catchIndex juggler n = p.catchIndex juggler n ∧
          q.coordinate juggler n index = p.coordinate juggler n index) ∧
      ∀ first rest, segmentTexts text.toList = first :: rest →
        ∃ q, Pattern.ofNotation (String.ofList (['|'].intercalate (rest ++ [first]))) = .ok q ∧
          ∀ juggler n index : Int, AnswersAs q juggler p (juggler + 1) n index := by
  refine ⟨fun f => ofNotation_copies_of_error hseams, fun p h => ?_⟩
  have hp := (wellFormed_of_ofNotation h).segments_ne_nil
  refine ⟨⟨_, ofNotation_copies_of_ok hseams h, length_flatten_replicate .., fun juggler _ _ => ?_⟩,
    fun first rest htexts => ⟨_, ofNotation_rotate h htexts, fun juggler _ _ => ?_⟩⟩
  · exact answers_congr (segment_replicate hp seams.length juggler)
  · exact answersAs_of_segment_eq hp (segment_rotate hp juggler)

/-- Three copies of a text with two segments, asked for a juggler with a negative number. -/
theorem ofNotation_copies_three : (∀ seam ∈ [['!', '|'], ['|']], IsSeam seam) ∧ ∃ p q,
    Pattern.ofNotation "(0)(1).|(2)(3)." = .ok p ∧
    Pattern.ofNotation "(0)(1).|(2)(3).!|(0)(1).|(2)(3).|(0)(1).|(2)(3)." = .ok q ∧
    q.jugglers = 3 * p.jugglers ∧ q.coordinate (-6) 0 1 = p.coordinate (-6) 0 1 := by
  have hseams : ∀ seam ∈ [['!', '|'], ['|']], IsSeam seam := by simp [IsSeam, isDelimiter]
  have htext : String.ofList (copies "(0)(1).|(2)(3).".toList [['!', '|'], ['|']]) =
      "(0)(1).|(2)(3).!|(0)(1).|(2)(3).|(0)(1).|(2)(3)." := by decide +kernel
  have h : Pattern.ofNotation "(0)(1).|(2)(3)." = .ok _ := rfl
  obtain ⟨⟨q, hq, hjugglers, hanswers⟩, -⟩ := (Pattern.ofNotation_copies _ hseams).2 _ h
  rw [htext] at hq
  exact ⟨hseams, _, q, h, hq, hjugglers, (hanswers (-6) 0 1).2.2.2⟩

/-- The greatest juggler's number that can be written is named where a beat is refused; the next one
is not, although it has the same segment in the text with the first segment text in front. -/
theorem ofNotation_rotate_of_long_number : ∃ p q,
    Pattern.ofNotation "(0)(1).|(2)(3)." = .ok p ∧ Pattern.ofNotation "(2)(3).|(0)(1)." = .ok q ∧
    q.waypointCount (10 ^ Text.maxDigits - 1) 1 =
      .error (.beatOutOfRange (10 ^ Text.maxDigits - 1) 1 1) ∧
    p.waypointCount (10 ^ Text.maxDigits - 1 + 1) 1 = .error .unwritable := by
  obtain ⟨p, hp, hperiod⟩ : ∃ p, Pattern.ofNotation "(0)(1).|(2)(3)." = .ok p ∧
      ∀ g ∈ p.segments, g.period = 1 := ⟨_, rfl, by decide +kernel⟩
  obtain ⟨q, hq, hperiod'⟩ : ∃ q, Pattern.ofNotation "(2)(3).|(0)(1)." = .ok q ∧
      ∀ g ∈ q.segments, g.period = 1 := ⟨_, rfl, by decide +kernel⟩
  have hne := (wellFormed_of_ofNotation hp).segments_ne_nil
  have hne' := (wellFormed_of_ofNotation hq).segments_ne_nil
  obtain ⟨hlast, hnext, -⟩ := LookupError.outOfRange_at_limit
  refine ⟨p, q, hp, hq, ?_, ?_⟩
  · rw [q.waypointCount_of_forall_period hne' hperiod' _ (by decide), hlast]
  · rw [p.waypointCount_of_forall_period hne hperiod _ (by decide), Int.sub_add_cancel, hnext]

end HandPath
