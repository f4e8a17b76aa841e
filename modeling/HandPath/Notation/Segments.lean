import HandPath.Text.Pieces

/-!
# HandPath.Notation.Segments — the segment texts of a text

The characters `<`, `>` and braces are decoration and count nowhere, not even inside a number. A bar
or an exclamation mark parts two segments; there are no empty segments, however many of them stand
together. Segment texts of two texts on either side of such a mark are those of the one followed by
those of the other (`segmentTexts_append`).
-/

namespace HandPath.Notation

open Text

/-- Brackets that may stand anywhere and mean nothing. -/
def isDecoration (c : Char) : Bool := c = '<' || c = '>' || c = '\x7b' || c = '\x7d'

/-- A bar or an exclamation mark, which ends a segment. -/
def isDelimiter (c : Char) : Bool := c = '|' || c = '!'

/-- The texts between the delimiters that are not empty, without decoration. -/
def segmentTexts (cs : List Char) : List (List Char) :=
  pieces isDelimiter (cs.filter (!isDecoration ·))

theorem isDecoration_of_isDelimiter {d : Char} (hd : isDelimiter d = true) :
    isDecoration d = false := by
  obtain h | h := Bool.or_eq_true_iff.1 hd
  · obtain rfl := of_decide_eq_true h
    rfl
  · obtain rfl := of_decide_eq_true h
    rfl

theorem segmentTexts_append {d : Char} (hd : isDelimiter d = true) (a b : List Char) :
    segmentTexts (a ++ d :: b) = segmentTexts a ++ segmentTexts b := by
  simp [segmentTexts, List.filter_append, isDecoration_of_isDelimiter hd, pieces_append hd]

/-- A delimiter at the start of a text makes no segment. -/
theorem segmentTexts_cons {d : Char} (hd : isDelimiter d = true) (cs : List Char) :
    segmentTexts (d :: cs) = segmentTexts cs := segmentTexts_append hd [] cs

/-- Any number of delimiters part two segments as one does. -/
theorem segmentTexts_append_seam {seam : List Char} (hne : seam ≠ [])
    (hseam : ∀ d ∈ seam, isDelimiter d = true) (a b : List Char) :
    segmentTexts (a ++ (seam ++ b)) = segmentTexts a ++ segmentTexts b := by
  have hstart : ∀ ds : List Char, (∀ d ∈ ds, isDelimiter d = true) →
      segmentTexts (ds ++ b) = segmentTexts b := by
    intro ds hds
    induction ds with
    | nil => rfl
    | cons d ds ih =>
      obtain ⟨hd, hds⟩ := List.forall_mem_cons.1 hds
      rw [List.cons_append, segmentTexts_cons hd, ih hds]
  cases seam with
  | nil => exact absurd rfl hne
  | cons d ds =>
    obtain ⟨hd, hds⟩ := List.forall_mem_cons.1 hseam
    rw [List.cons_append, segmentTexts_append hd, hstart ds hds]

/-- A segment text is not empty and holds neither delimiters nor decoration. -/
theorem of_mem_segmentTexts {cs w : List Char} (h : w ∈ segmentTexts cs) :
    w ≠ [] ∧ ∀ c ∈ w, isDelimiter c = false ∧ isDecoration c = false := by
  obtain ⟨hne, hw⟩ := of_mem_pieces h
  refine ⟨hne, fun c hc => ?_⟩
  obtain ⟨hmem, hdelimiter⟩ := hw c hc
  exact ⟨hdelimiter, by simpa using (List.mem_filter.1 hmem).2⟩

/-- Segment texts that are joined by bars are found again. -/
theorem segmentTexts_intercalate {ws : List (List Char)}
    (h : ∀ w ∈ ws, w ≠ [] ∧ ∀ c ∈ w, isDelimiter c = false ∧ isDecoration c = false) :
    segmentTexts (['|'].intercalate ws) = ws := by
  have hfilter : (['|'].intercalate ws).filter (!isDecoration ·) = ['|'].intercalate ws := by
    refine List.filter_eq_self.2 fun c hc => ?_
    rcases mem_intercalate hc with hbar | ⟨w, hw, hcw⟩
    · rw [List.mem_singleton.1 hbar]
      rfl
    · rw [((h w hw).2 c hcw).2]
      rfl
  rw [segmentTexts, hfilter]
  exact pieces_intercalate rfl fun w hw => ⟨(h w hw).1, fun c hc => ((h w hw).2 c hc).1⟩

end HandPath.Notation
