import HandPath.Proofs.Agreement
import HandPath.Proofs.Messages
import HandPath.Proofs.Quoted
import HandPath.Proofs.Sessions

/-!
# HandPath.Proofs.Rejections — the lines that a rejected request leaves

All that a record holds of a text stands in its message between quotes, so the records of every step
are printable (`printable_of_mem_records`).  A line is read back from the left: the time up to the
bracket, the kind up to the space, and then the quoted text (`eq_of_line_eq`).

Main statement (`lines_of_rejected`): at the levels `debug` and `info` every line that a rejected
request leaves is printable, and the last of them determines the text that was rejected.
-/

namespace HandPath

open Notation Service Text

/-! ### Printable texts -/

namespace Text

theorem isPrintable_of_isDigit {c : Char} (h : c.isDigit = true) : isPrintable c = true := by
  obtain ⟨hlow, hhigh⟩ := Char.isDigit_iff_toNat.1 h
  exact isPrintable_of_ascii (Nat.le_trans (by decide) hlow) (Nat.le_trans hhigh (by decide))

theorem printable_natText (n : ℕ) : Printable (natText n).toList := by
  intro c hc
  rw [natText, String.toList_ofList] at hc
  exact isPrintable_of_isDigit (isDigit_of_mem_natChars hc)

theorem printable_quoted (s : String) : Printable (quoted s).toList := by
  rw [quoted, String.toList_ofList]
  exact printable_quotedChars s.toList

theorem printable_intercalate {sep : List Char} {ws : List (List Char)} (hsep : Printable sep)
    (h : ∀ w ∈ ws, Printable w) : Printable (sep.intercalate ws) := by
  intro c hc
  rcases mem_intercalate hc with hc | ⟨w, hw, hc⟩
  · exact hsep c hc
  · exact h w hw c hc

end Text

theorem printable_name (k : Kind) : Printable k.name.toList := by
  cases k <;> decide

namespace Journal

theorem printable_numberList (ns : List ℕ) : Printable (numberList ns).toList := by
  have hnumbers : ∀ w ∈ (ns.map natText).map String.toList, Printable w := by
    intro w hw
    rw [List.map_map] at hw
    obtain ⟨n, -, rfl⟩ := List.mem_map.1 hw
    exact printable_natText n
  have hlist := printable_intercalate (by decide : Printable ", ".toList) hnumbers
  simp +decide only [numberList, String.toList_append, String.toList_intercalate,
    printable_append, hlist, and_self]

/-! ### Records -/

theorem printable_segmentRecord (juggler : ℕ) (g : Segment) :
    Printable (segmentRecord juggler g).message.toList := by
  simp +decide only [segmentRecord, String.toList_append, printable_append, printable_natText,
    printable_numberList, and_self]

theorem printable_patternRecord (p : Pattern) : Printable (patternRecord p).message.toList := by
  simp +decide only [patternRecord, String.toList_append, printable_append, printable_natText,
    printable_numberList, and_self]

theorem printable_rejectionRecord (text : String) (f : Fault) :
    Printable (rejectionRecord text f).message.toList := by
  simp +decide only [rejectionRecord, String.toList_append, printable_append, printable_name,
    printable_quoted, and_self]

theorem CompilationRecords.printable {text : String} {rs : List Record}
    (h : CompilationRecords text rs) {r : Record} (hr : r ∈ rs) : Printable r.message.toList :=
  h.of_mem (P := fun r => Printable r.message.toList) printable_segmentRecord
    printable_patternRecord hr

theorem printable_textRecords {text : String} {r : Record} (h : r ∈ textRecords text) :
    Printable r.message.toList := by
  have hcompilation := compilationRecords_run text
  by_cases hfault : ∃ f, Pattern.ofNotation text = .error (.fault f)
  · obtain ⟨f, hf⟩ := hfault
    rw [textRecords_of_fault hf] at h
    rcases List.mem_append.1 h with h | h
    · exact hcompilation.printable h
    · rw [List.mem_singleton.1 h]
      exact printable_rejectionRecord text f
  · rw [textRecords_of_ne_fault fun f hf => hfault ⟨f, hf⟩] at h
    exact hcompilation.printable h

/-- Whatever a step is given, it has printable messages only. -/
theorem printable_of_mem_records {s : Step} {r : Record} (h : r ∈ s.records) :
    Printable r.message.toList := by
  cases s with
  | configure name => nomatch h
  | compile text => exact (compilationRecords_run text).printable h
  | request q =>
    rw [Step.records, records_request] at h
    cases htext : textOf? q with
    | none =>
      rw [htext] at h
      nomatch h
    | some text =>
      rw [htext] at h
      exact printable_textRecords h

/-! ### Lines -/

/-- A time as it stands in front of a line: numbers with spaces and marks between them. -/
def IsTime (time : String) : Prop :=
  ∀ c ∈ time.toList, c.isDigit = true ∨ c ∈ [' ', ',', '-', ':']

instance (time : String) : Decidable (IsTime time) := List.decidableBAll _ time.toList

variable {time time' : String}

theorem IsTime.printable (h : IsTime time) : Printable time.toList := by
  have hmark : Printable [' ', ',', '-', ':'] := by decide
  intro c hc
  rcases h c hc with hdigit | hc
  · exact isPrintable_of_isDigit hdigit
  · exact hmark c hc

theorem IsTime.bracket_not_mem (h : IsTime time) : '[' ∉ time.toList ++ [' '] := by
  intro hc
  rcases List.mem_append.1 hc with hc | hc
  · exact absurd (h _ hc) (by decide)
  · exact absurd hc (by decide)

theorem printable_line (ht : IsTime time) {r : Record} (h : Printable r.message.toList) :
    Printable (r.line time).toList := by
  obtain ⟨severity, source, message⟩ := r
  have hlabel : Printable severity.label.toList := by cases severity <;> decide
  have hsource : Printable source.label.toList := by cases source <;> decide
  simp +decide only [Record.line, String.toList_append, printable_append, ht.printable, hlabel,
    hsource, h, and_self]

theorem toList_line_rejectionRecord (time text : String) (f : Fault) :
    ((rejectionRecord text f).line time).toList = (time.toList ++ [' ']) ++ '[' ::
      ("INFO] jugglehands_backend.api.server: hands notation rejected: kind=".toList ++
        (f.violation.kind.name.toList ++
          ' ' :: ("notation=".toList ++ quotedChars text.toList))) := by
  simp [Record.line, rejectionRecord, Severity.label, Source.label, quoted]

/-- The line of a rejection determines the text, at whatever times it is written. -/
theorem eq_of_line_eq {text text' : String} {f f' : Fault} (ht : IsTime time) (ht' : IsTime time')
    (h : (rejectionRecord text' f').line time' = (rejectionRecord text f).line time) :
    text' = text := by
  replace h := congrArg String.toList h
  rw [toList_line_rejectionRecord, toList_line_rejectionRecord] at h
  -- The time holds no bracket and the kind no space, so that the lines are cut at the first ones.
  obtain ⟨-, hmessage⟩ := append_cons_inj ht'.bracket_not_mem ht.bracket_not_mem h
  obtain ⟨-, hquoted⟩ := append_cons_inj (Kind.space_not_mem_name _) (Kind.space_not_mem_name _)
    (List.append_cancel_left hmessage)
  have hchars : quotedChars text'.toList ++ [] = quotedChars text.toList ++ [] := by
    rw [List.append_cancel_left hquoted]
  exact String.toList_injective (quotedChars_append_inj hchars).1

/-- **What a rejected request leaves.**  At the levels `debug` and `info`, a request that is
answered with status 400 writes records of severity `debug` and then the record of its rejection.
Every line is printable, and the line of the rejection determines the text: at whatever times they
are written, no other text leaves the same line. -/
theorem lines_of_rejected {before : List Step} {r : Request}
    (hlevel : lastLevel before = some .debug ∨ lastLevel before = some .info)
    (hstatus : r.response.status = 400) : ∃ text f rs, textOf? r = some text ∧
    Pattern.ofNotation text = .error (.fault f) ∧
    (∀ after, (session .initial (before ++ .request r :: after))[before.length]? =
      some (.responded 400, rs ++ [rejectionRecord text f])) ∧
    (∀ record ∈ rs, record.severity = .debug) ∧
    (∀ time, IsTime time → ∀ record ∈ rs ++ [rejectionRecord text f],
      Printable (record.line time).toList) ∧
    ∀ time time' text' f', IsTime time → IsTime time' →
      (rejectionRecord text' f').line time' = (rejectionRecord text f).line time →
        text' = text := by
  obtain ⟨text, f, htext, hf⟩ := status_eq_400_iff.1 hstatus
  have hcompilation := compilationRecords_run text
  -- The records of the compilation are shown at `debug` only.
  have hwritten : ∃ rs, (∀ record ∈ rs, record.severity = .debug) ∧
      (Config.ofLevel? (lastLevel before)).written r.records = rs ++ [rejectionRecord text f] := by
    refine ⟨if lastLevel before = some .debug then runRecords (run text.toList) else [],
      fun record h => ?_, ?_⟩
    · split_ifs at h
      · exact hcompilation.severity h
      · nomatch h
    · rw [records_request, htext, Option.map_some, Option.getD_some, textRecords_of_fault hf,
        written_append, hcompilation.written, written_rejectionRecord, if_pos hlevel]
  obtain ⟨rs, hdebug, hwritten⟩ := hwritten
  refine ⟨text, f, rs, htext, hf, fun after => ?_, hdebug, fun time ht record h => ?_,
    fun time time' text' f' ht ht' => eq_of_line_eq ht ht'⟩
  · rw [getElem?_session, configAfter_initial, Step.records, hwritten, Step.outcome, hstatus]
  · have hmem : record ∈ (Step.request r).records := by
      rw [← hwritten, written_ofLevel?] at h
      exact (List.mem_filter.1 h).1
    exact printable_line ht (printable_of_mem_records hmem)

/-- A text with a line feed, and what looks like a line of its own behind it. -/
theorem lines_of_rejected_line_feed : ∃ text f rs,
    textOf? (compileRequest "(1)(2).|\n2024-01-01 [INFO] 'x'") = some text ∧
    (session .initial [.configure "debug",
      .request (compileRequest "(1)(2).|\n2024-01-01 [INFO] 'x'")])[1]? =
        some (.responded 400, rs ++ [rejectionRecord text f]) ∧
    ∀ record ∈ rs ++ [rejectionRecord text f],
      Printable (record.line "2024-01-01 00:00:00,000").toList := by
  have hstatus : (compileRequest "(1)(2).|\n2024-01-01 [INFO] 'x'").response.status = 400 := by
    rw [response_compileRequest (by decide)]
    rfl
  have hlevel : lastLevel [.configure "debug"] = some .debug := by decide
  obtain ⟨text, f, rs, htext, -, hentry, -, hprintable, -⟩ :=
    lines_of_rejected (.inl hlevel) hstatus
  exact ⟨text, f, rs, htext, hentry [], hprintable _ (by decide)⟩

end Journal

end HandPath
