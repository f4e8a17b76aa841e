import HandPath.Proofs.Truncation
import Mathlib.Logic.Relation

/-!
# HandPath.Proofs.Spelling — what makes no difference in a text

The walks over the tokens of a segment do not see whether a mark is a capital or a small letter
(`compileSegment_congr`).  `Edit` lists the edits of a text that leave its meaning alone: decoration
anywhere, more delimiters where one is, another delimiter, delimiters at the ends, and, outside
groups, spaces beside other characters of a segment and the case of marks.  An edit leaves the
segment texts alone or changes one of them, whose tokens stay the same but for the case of marks
(`Edit.alike`).

Main statement (`ofNotation_of_edits`): what comes of a text, pattern or failure, is the same after
any number of edits.
-/

namespace HandPath.Notation

open Token Text

/-! ### The case of marks -/

/-- The token with a capital letter, if it is a mark. -/
def Token.capital : Token → Token
  | throwMark _ => throwMark false
  | catchMark _ => catchMark false
  | t => t

/-- The scan as if all marks were capital letters. -/
def Scan.capital (s : Scan) : Scan := ⟨s.tokens.map Token.capital, s.fault⟩

variable {juggler : Int} {s : Scan}

theorem countEnds_capital (n : Nat) (pending : Bool) (ts : List Token) :
    countEnds n pending (ts.map Token.capital) = countEnds n pending ts := by
  induction ts generalizing n pending with
  | nil => rfl
  | cons t ts ih =>
    cases t with
    | beatEnd => exact ih ..
    | blank => exact ih ..
    | group inside => exact ih ..
    | throwMark small => exact ih ..
    | catchMark small => exact ih ..

theorem layoutsFrom_capital (n : Nat) (m : BeatMarks) (ts : List Token) :
    layoutsFrom juggler s.capital n m (ts.map Token.capital) = layoutsFrom juggler s n m ts := by
  induction ts generalizing n m with
  | nil => rfl
  | cons t ts ih =>
    cases t with
    | beatEnd => simp only [List.map_cons, Token.capital, layoutsFrom, ih]
    | blank => simp only [List.map_cons, Token.capital, layoutsFrom, ih]
    | group inside => simp only [List.map_cons, Token.capital, layoutsFrom, ih]
    | throwMark small => simp only [List.map_cons, Token.capital, layoutsFrom, BeatMarks.next, ih]
    | catchMark small => simp only [List.map_cons, Token.capital, layoutsFrom, BeatMarks.next, ih]

theorem beatsFrom_capital (n : Nat) (ws : List (Option Coordinate)) (ls : List BeatLayout)
    (ts : List Token) : beatsFrom juggler s.capital n ws ls (ts.map Token.capital) =
      beatsFrom juggler s n ws ls ts := by
  induction ts generalizing n ws ls with
  | nil => rfl
  | cons t ts ih =>
    cases t with
    | beatEnd =>
      cases ls with
      | nil => rfl
      | cons layout ls => simp only [List.map_cons, Token.capital, beatsFrom, ih]
    | blank => simp only [List.map_cons, Token.capital, beatsFrom, ih]
    | group inside => simp only [List.map_cons, Token.capital, beatsFrom, ih]
    | throwMark small => simp only [List.map_cons, Token.capital, beatsFrom, ih]
    | catchMark small => simp only [List.map_cons, Token.capital, beatsFrom, ih]

/-- The tokens of both segment texts are the same but for the case of marks, and so is the fault
that ends their scans. -/
def Alike (cs ds : List Char) : Prop := (scan cs).capital = (scan ds).capital

/-- A segment is compiled as its tokens are with capital marks. -/
theorem compileSegment_eq_capital (juggler : Int) (cs : List Char) :
    compileSegment juggler cs = (do
      let _ ← period juggler (scan cs).capital
      let layouts ← layouts juggler (scan cs).capital
      return ⟨← beats juggler (scan cs).capital layouts⟩) := by
  -- No walk looks at the case of a mark.
  have hperiod : period juggler (scan cs).capital = period juggler (scan cs) := by
    rw [period, period, Scan.capital, countEnds_capital]
    rfl
  have hlayouts : layouts juggler (scan cs).capital = layouts juggler (scan cs) :=
    layoutsFrom_capital ..
  have hbeats : ∀ ls, beats juggler (scan cs).capital ls = beats juggler (scan cs) ls :=
    fun ls => beatsFrom_capital ..
  rw [compileSegment, hperiod, hlayouts]
  simp only [hbeats]

theorem compileSegment_congr {cs ds : List Char} (h : Alike cs ds) (juggler : Int) :
    compileSegment juggler cs = compileSegment juggler ds := by
  rw [compileSegment_eq_capital, compileSegment_eq_capital, show (scan cs).capital = _ from h]

theorem runFrom_congr {texts texts' : List (List Char)} (h : List.Forall₂ Alike texts texts') :
    ∀ juggler, runFrom juggler texts = runFrom juggler texts' := by
  induction h with
  | nil => exact fun _ => rfl
  | cons hcs _ ih =>
    intro juggler
    rw [runFrom, runFrom, compileSegment_congr hcs, ih]

theorem run_congr {cs ds : List Char} (h : List.Forall₂ Alike (segmentTexts cs) (segmentTexts ds)) :
    run cs = run ds := by
  rw [run, run]
  generalize segmentTexts cs = texts at h ⊢
  generalize segmentTexts ds = texts' at h ⊢
  cases h with
  | nil => rfl
  | cons hcs hrest => exact runFrom_congr (.cons hcs hrest) 1

/-! ### One segment among others -/

/-- All pieces but the last of what stands before a place can be seen from what stands before. -/
theorem exists_pieces_before (p : Char → Bool) (a : List Char) :
    ∃ init, ∀ x, pieces p (a ++ x) = init ++ pieces p (a.rtakeWhile (!p ·) ++ x) := by
  -- From the end: a delimiter begins a new piece, any other character extends the last one.
  induction a using List.reverseRecOn with
  | nil => exact ⟨[], fun _ => rfl⟩
  | append_singleton a c ih =>
    by_cases hc : p c = true
    · refine ⟨pieces p a, fun x => ?_⟩
      rw [List.rtakeWhile_concat_neg _ _ _ (by simp [hc]), List.append_assoc,
        List.singleton_append, pieces_append hc, List.nil_append]
    · obtain ⟨init, hinit⟩ := ih
      refine ⟨init, fun x => ?_⟩
      rw [List.rtakeWhile_concat_pos _ _ _ (by simp [hc]), List.append_assoc, hinit,
        List.append_assoc]

/-- All pieces but the first of what stands after a place can be seen from what stands after. -/
theorem exists_pieces_after (p : Char → Bool) (b : List Char) :
    ∃ rest, ∀ x, pieces p (x ++ b) = pieces p (x ++ b.takeWhile (!p ·)) ++ rest := by
  induction b with
  | nil => exact ⟨[], fun x => by simp⟩
  | cons c b ih =>
    by_cases hc : p c = true
    · refine ⟨pieces p b, fun x => ?_⟩
      rw [List.takeWhile_cons_of_neg (by simp [hc]), pieces_append hc, List.append_nil]
    · obtain ⟨rest, hrest⟩ := ih
      refine ⟨rest, fun x => ?_⟩
      rw [List.takeWhile_cons_of_pos (by simp [hc]), ← List.singleton_append, ← List.append_assoc,
        hrest, List.append_assoc, List.singleton_append]

/-- The part of a segment text that stands before a place, from all that stands before it. -/
def segmentBefore (before : List Char) : List Char :=
  (before.filter (!isDecoration ·)).rtakeWhile (!isDelimiter ·)

/-- The part of a segment text that stands after a place, from all that stands after it. -/
def segmentAfter (after : List Char) : List Char :=
  (after.filter (!isDecoration ·)).takeWhile (!isDelimiter ·)

/-- A character that is part of a segment text. -/
def IsInk (c : Char) : Prop := isDelimiter c = false ∧ isDecoration c = false

instance (c : Char) : Decidable (IsInk c) := inferInstanceAs (Decidable (_ ∧ _))

/-- Characters at a place of a text change the segment around the place, and no other. -/
theorem exists_segmentTexts_around (before after : List Char) : ∃ init rest, ∀ mid : List Char,
    (∀ c ∈ mid, IsInk c) → segmentBefore before ++ (mid ++ segmentAfter after) ≠ [] →
      segmentTexts (before ++ (mid ++ after)) =
        init ++ [segmentBefore before ++ (mid ++ segmentAfter after)] ++ rest := by
  obtain ⟨init, hinit⟩ := exists_pieces_before isDelimiter (before.filter (!isDecoration ·))
  obtain ⟨rest, hrest⟩ := exists_pieces_after isDelimiter (after.filter (!isDecoration ·))
  refine ⟨init, rest, fun mid hmid hne => ?_⟩
  have hfilter : mid.filter (!isDecoration ·) = mid :=
    List.filter_eq_self.2 fun c hc => by rw [(hmid c hc).2]; rfl
  -- Both sides are cut at a delimiter, so that no delimiter is left and this is one piece.
  have hink : ∀ c ∈ segmentBefore before ++ (mid ++ segmentAfter after), isDelimiter c = false := by
    intro c hc
    rcases List.mem_append.1 hc with hc | hc
    · simpa using List.mem_rtakeWhile_imp hc
    rcases List.mem_append.1 hc with hc | hc
    · exact (hmid c hc).1
    · simpa using List.mem_takeWhile_imp hc
  have hpiece : pieces isDelimiter (segmentBefore before ++ (mid ++ segmentAfter after)) =
      [segmentBefore before ++ (mid ++ segmentAfter after)] :=
    pieces_of_forall_eq_false hne hink
  rw [segmentTexts, List.filter_append, List.filter_append, hfilter, hinit, ← List.append_assoc,
    hrest, List.append_assoc _ mid, ← List.append_assoc]
  exact congrArg (init ++ · ++ rest) hpiece

theorem forall₂_alike_refl (texts : List (List Char)) : List.Forall₂ Alike texts texts :=
  List.forall₂_same.2 fun _ _ => rfl

/-- Texts are alike that differ in one place, if they are alike in the segment around it. -/
theorem forall₂_alike {before after : List Char} (mid mid' : List Char)
    (hmid : ∀ c ∈ mid, IsInk c) (hmid' : ∀ c ∈ mid', IsInk c)
    (hne : segmentBefore before ++ (mid ++ segmentAfter after) ≠ [])
    (hne' : segmentBefore before ++ (mid' ++ segmentAfter after) ≠ [])
    (h : Alike (segmentBefore before ++ (mid ++ segmentAfter after))
      (segmentBefore before ++ (mid' ++ segmentAfter after))) :
    List.Forall₂ Alike (segmentTexts (before ++ (mid ++ after)))
      (segmentTexts (before ++ (mid' ++ after))) := by
  obtain ⟨init, rest, htexts⟩ := exists_segmentTexts_around before after
  rw [htexts mid hmid hne, htexts mid' hmid' hne']
  exact List.rel_append (List.rel_append (forall₂_alike_refl init) (.cons h .nil))
    (forall₂_alike_refl rest)

/-! ### One place of a segment text -/

/-- What stands after a place outside groups can be exchanged for what scans alike; the same holds
behind a parenthesis that stays open. -/
theorem alike_append {u v v' : List Char} (h : Alike v v')
    (hu : groupOpen u = false ∨ ')' ∉ v ∧ ')' ∉ v') : Alike (u ++ v) (u ++ v') := by
  unfold Alike at h ⊢
  -- Along the tokens of `u`; where `u` is stuck, `v` matters only if it closes the open group.
  induction u using text_induction with
  | space u ih =>
    rw [List.cons_append, List.cons_append, scan_space, scan_space]
    exact ih hu
  | token t u ht ih =>
    rw [groupOpen_chars_append ht] at hu
    rw [List.append_assoc, List.append_assoc, scan_chars_append ht, scan_chars_append ht]
    show (scan (u ++ v)).capital.cons t.capital = (scan (u ++ v')).capital.cons t.capital
    rw [ih hu]
  | stuck u fault hstuck =>
    cases hstuck with
    | ended => exact h
    | openGroup hcs =>
      rcases hu with hu | ⟨hv, hv'⟩
      · exact absurd ((openAfter_open hcs).symm.trans hu) (by decide)
      · rw [List.cons_append, List.cons_append,
          scan_stuck (.openGroup (by rw [List.mem_append]; exact not_or.2 ⟨hcs, hv⟩)),
          scan_stuck (.openGroup (by rw [List.mem_append]; exact not_or.2 ⟨hcs, hv'⟩))]
    | badCharacter hc =>
      rw [List.cons_append, List.cons_append, scan_stuck (.badCharacter hc),
        scan_stuck (.badCharacter hc)]

/-! ### Edits -/

/-- The place is in no group. A parenthesis that is not closed in its segment begins no group. -/
def OutsideGroups (before after : List Char) : Prop :=
  groupOpen (segmentBefore before) = false ∨ ')' ∉ segmentAfter after

instance (before after : List Char) : Decidable (OutsideGroups before after) :=
  inferInstanceAs (Decidable (_ ∨ _))

/-- One edit of a text that leaves its meaning alone; it may also be taken back. -/
inductive Edit : List Char → List Char → Prop
  | decoration {d : Char} (before after : List Char) : isDecoration d = true →
      Edit (before ++ after) (before ++ d :: after)
  | otherDelimiter {d d' : Char} (before after : List Char) : isDelimiter d = true →
      isDelimiter d' = true → Edit (before ++ d :: after) (before ++ d' :: after)
  | moreDelimiters {d d' : Char} (before after : List Char) : isDelimiter d = true →
      isDelimiter d' = true → Edit (before ++ d :: after) (before ++ d :: d' :: after)
  | delimiterFirst {d : Char} (cs : List Char) : isDelimiter d = true → Edit cs (d :: cs)
  | delimiterLast {d : Char} (cs : List Char) : isDelimiter d = true → Edit cs (cs ++ [d])
  /-- The segment around the place has a character, which the space is put beside. -/
  | space (before after : List Char) : segmentBefore before ++ segmentAfter after ≠ [] →
      OutsideGroups before after → Edit (before ++ after) (before ++ ' ' :: after)
  | throwCase (before after : List Char) : OutsideGroups before after →
      Edit (before ++ 'T' :: after) (before ++ 't' :: after)
  | catchCase (before after : List Char) : OutsideGroups before after →
      Edit (before ++ 'C' :: after) (before ++ 'c' :: after)

/-- Outside groups a character can be exchanged for another that is the same token but for the
case. -/
theorem forall₂_alike_of_tokens {before after : List Char} (hplace : OutsideGroups before after)
    {c d : Char} {t u : Token} (hc : IsInk c) (hd : IsInk d) (ht : Token.ofChar? c = some t)
    (hu : Token.ofChar? d = some u) (htu : t.capital = u.capital) :
    List.Forall₂ Alike (segmentTexts (before ++ c :: after))
      (segmentTexts (before ++ d :: after)) := by
  have hclose : ∀ {x : Char} {w : Token}, Token.ofChar? x = some w → ')' ∉ segmentAfter after →
      ')' ∉ x :: segmentAfter after := by
    intro x w hw hafter hmem
    rcases List.mem_cons.1 hmem with rfl | hmem
    · nomatch hw
    · exact hafter hmem
  refine forall₂_alike [c] [d] (by simpa using hc) (by simpa using hd)
    (by simp) (by simp) (alike_append ?_ ?_)
  · show (scan (c :: segmentAfter after)).capital = (scan (d :: segmentAfter after)).capital
    rw [scan_token ht, scan_token hu]
    show (scan (segmentAfter after)).capital.cons t.capital = _
    rw [htu]
    rfl
  · exact hplace.imp_right fun h => ⟨hclose ht h, hclose hu h⟩

/-- An edit leaves the segment texts alike. -/
theorem Edit.alike {cs ds : List Char} (h : Edit cs ds) :
    List.Forall₂ Alike (segmentTexts cs) (segmentTexts ds) := by
  have hsame : ∀ {cs ds : List Char}, segmentTexts ds = segmentTexts cs →
      List.Forall₂ Alike (segmentTexts cs) (segmentTexts ds) := by
    intro cs ds h
    rw [h]
    exact forall₂_alike_refl _
  -- Decoration and delimiters keep the segment texts; a space or a mark changes one of the scans.
  cases h with
  | decoration before after hd =>
    refine hsame ?_
    simp [segmentTexts, hd]
  | otherDelimiter before after hd hd' =>
    exact hsame (by rw [segmentTexts_append hd', segmentTexts_append hd])
  | moreDelimiters before after hd hd' =>
    exact hsame (by rw [segmentTexts_append hd, segmentTexts_cons hd', segmentTexts_append hd])
  | delimiterFirst _ hd => exact hsame (segmentTexts_cons hd _)
  | delimiterLast cs hd =>
    exact hsame (by rw [segmentTexts_append hd]; exact List.append_nil _)
  | space before after hne hplace =>
    have hspace : ')' ∉ segmentAfter after → ')' ∉ ' ' :: segmentAfter after := by simp
    refine forall₂_alike [] [' '] (by simp) (by simp [IsInk]; decide) hne
      (by simp) (alike_append (v := segmentAfter after) rfl ?_)
    exact hplace.imp_right fun h => ⟨h, hspace h⟩
  | throwCase before after hplace =>
    exact forall₂_alike_of_tokens hplace (by decide) (by decide) rfl rfl rfl
  | catchCase before after hplace =>
    exact forall₂_alike_of_tokens hplace (by decide) (by decide) rfl rfl rfl

theorem run_eq_of_edits {cs ds : List Char} (h : Relation.EqvGen Edit cs ds) : run cs = run ds := by
  induction h with
  | rel _ _ h => exact run_congr h.alike
  | refl _ => rfl
  | symm _ _ _ ih => exact ih.symm
  | trans _ _ _ _ _ ih ih' => exact ih.trans ih'

end HandPath.Notation

namespace HandPath

open Notation

/-- **The layout of a text does not matter.**  After any number of edits, done or taken back, a text
compiles to the same pattern, or fails with the same failure, whose kind, place, arguments and
message are the same. -/
theorem Pattern.ofNotation_of_edits {text text' : String}
    (h : Relation.EqvGen Edit text.toList text'.toList) :
    Pattern.ofNotation text' = Pattern.ofNotation text := by
  rw [Pattern.ofNotation, Pattern.ofNotation, run_eq_of_edits h]

/-- Decoration inside a group, a small catch mark, another delimiter and a space less leave the
fault of the second segment as it is. -/
theorem ofNotation_of_edits_fault :
    Relation.EqvGen Edit "(1)C(2).|(3) T(4).".toList "(<1)c(2).!(3)T(4).".toList ∧
      Pattern.ofNotation "(<1)c(2).!(3)T(4)." =
        .error (.mistake .throwNotStart (some 2) (some 0)) := by
  have h1 : Edit "(1)C(2).|(3) T(4).".toList "(<1)C(2).|(3) T(4).".toList :=
    .decoration "(".toList "1)C(2).|(3) T(4).".toList rfl
  have h2 : Edit "(<1)C(2).|(3) T(4).".toList "(<1)c(2).|(3) T(4).".toList :=
    .catchCase "(<1)".toList "(2).|(3) T(4).".toList (by decide)
  have h3 : Edit "(<1)c(2).|(3) T(4).".toList "(<1)c(2).!(3) T(4).".toList :=
    .otherDelimiter "(<1)c(2).".toList "(3) T(4).".toList rfl rfl
  have h4 : Edit "(<1)c(2).!(3)T(4).".toList "(<1)c(2).!(3) T(4).".toList :=
    .space "(<1)c(2).!(3)".toList "T(4).".toList (by decide) (by decide)
  have h : Relation.EqvGen Edit "(1)C(2).|(3) T(4).".toList "(<1)c(2).!(3)T(4).".toList :=
    .trans _ _ _ (.rel _ _ h1) (.trans _ _ _ (.rel _ _ h2) (.trans _ _ _ (.rel _ _ h3)
      (.symm _ _ (.rel _ _ h4))))
  exact ⟨h, (Pattern.ofNotation_of_edits h).trans rfl⟩

end HandPath
