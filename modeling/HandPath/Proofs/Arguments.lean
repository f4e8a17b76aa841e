import HandPath.Command
import HandPath.Launch.Outcome
import HandPath.Proofs.Failure
import HandPath.Proofs.Messages
import HandPath.Proofs.Written

/-!
# HandPath.Proofs.Arguments — what the two programs make of their arguments

A long option with an equals sign is told by what stands before the first one, whatever value stands
behind it (`classify_assignment`), and a written integer is read back (`intOfText?_intText`).  So a
row of options that are given in this way sets one after the other (`settingsOf_given`), and all
settings can be asked for (`outcome_options`).  Whatever the arguments are, those that are left over
are no options and stand in their order (`sublist_of_settingsOf`).

The command fails in no other way than reading does, and its status says whether the text is a
pattern or has a fault (`run_outcome`); what it prints for a fault tells the fault
(`fault_eq_of_run_eq`).
-/

namespace HandPath

/-! ### Reading integers -/

namespace Text

open Decimal

/-- Nothing is cut off a text that has no character of the class. -/
theorem trimBoth_of_forall_not {p : Char → Bool} {cs : List Char} (h : ∀ c ∈ cs, p c = false) :
    trimBoth p cs = cs := by
  have hhead : NotHead p cs := fun c hc => h c (List.mem_of_mem_head? hc)
  have hlast : NotHead p cs.reverse := fun c hc =>
    h c (List.mem_reverse.1 (List.mem_of_mem_head? hc))
  rw [trimBoth, dropWhile_of_notHead hhead, dropWhile_of_notHead hlast, List.reverse_reverse]

/-- Digits without underscores are read as their values. -/
theorem groupedDigits?_of_digitText {cs : List Char} {ds : List ℕ} (h : DigitText cs ds)
    (hne : ds ≠ []) : groupedDigits? cs = some ds := by
  induction h with
  | nil => exact absurd rfl hne
  | @cons c d cs ds hc hcs ih =>
    cases hcs with
    | nil => simp [groupedDigits?, hc]
    | @cons c' d' cs ds hc' hcs =>
      have hunderscore : c' ≠ '_' := by
        rintro rfl
        exact nomatch hc'
      rw [groupedDigits?]
      · simp [hc, ih]
      · exact hunderscore

/-- A written integer is read back, if it may be written. -/
theorem intOfText?_intText {n : ℤ} (h : isWritable n = true) : intOfText? (intText n) = some n := by
  obtain ⟨ds, hds, hne, hval⟩ := exists_digitText_natChars n.natAbs
  have hread := groupedDigits?_of_digitText hds hne
  have hlength : ds.length ≤ maxDigits := by
    rw [← hds.length_eq]
    exact of_decide_eq_true h
  have hblank : ∀ c ∈ natChars n.natAbs, isWhiteSpace c = false := fun c hc => by
    rw [isWhiteSpace, isBlank_of_isDigit (hds.all_isDigit c hc), Bool.false_and]
  rw [intOfText?, intText, String.toList_ofList, intChars]
  split_ifs with hneg
  · rw [trimBoth_of_forall_not (List.forall_mem_cons.2 ⟨by decide, hblank⟩)]
    have hn : -((ofDigits ds : ℕ) : ℤ) = n := by omega
    simp [hread, hlength, hn]
  · rw [trimBoth_of_forall_not hblank]
    have hn : ((ofDigits ds : ℕ) : ℤ) = n := by omega
    -- the digits begin with no sign
    split
    next negative cs hsign =>
    split at hsign
    · next h => exact absurd h (natChars_ne_cons rfl _ _)
    · next h => exact absurd h (natChars_ne_cons rfl _ _)
    · cases hsign
      simp [hread, hlength, hn]

end Text

/-! ### Options with an equals sign -/

namespace Launch

open Text Traversal

variable {o : Opt}

theorem spelled?_of_mem {cs : List Char} (h : '=' ∈ cs) : spelled? cs = none := by
  have hspellings : ∀ s ∈ Opt.spellings, '=' ∉ s.1.toList := by decide
  rw [spelled?, List.lookup_eq_none_iff]
  intro s hs
  rw [bne_iff_ne]
  rintro hcs
  refine hspellings s hs ?_
  rwa [← hcs, String.toList_ofList]

theorem splitEquals_append {cs : List Char} (h : '=' ∉ cs) (value : List Char) :
    splitEquals (cs ++ '=' :: value) = (cs, attachedTo cs value) := by
  have hne : ∀ c ∈ cs, decide (c ≠ '=') = true := by
    intro c hc
    rw [decide_eq_true_iff]
    rintro rfl
    exact h hc
  unfold splitEquals
  rw [List.takeWhile_append_of_pos hne, List.dropWhile_append_of_pos hne]
  simp

/-- A long spelling with a value after an equals sign is the option with this value. -/
theorem classify_assignment {cs : List Char} (h : spelled? ('-' :: '-' :: cs) = some o)
    (value : List Char) : classify ('-' :: '-' :: cs ++ '=' :: value) =
      .ok (.option o (.afterEquals value)) := by
  have hno : '=' ∉ '-' :: '-' :: cs := by
    intro hmem
    rw [spelled?_of_mem hmem] at h
    nomatch h
  have hattached : attachedTo ('-' :: '-' :: cs) value = .afterEquals value := by
    cases cs with
    | nil => exact absurd h (by decide +revert)
    | cons c cs => rfl
  rw [List.cons_append, List.cons_append, classify, classifyDashed, ← List.cons_append,
    ← List.cons_append, spelled?_of_mem (by simp), splitEquals_append hno, h, hattached]

/-! ### Rows of options -/

/-- An option in one argument. A value stands behind an equals sign, and a double dash says that
there is none. -/
def Opt.given (o : Opt) (value : Option String) : String :=
  if o.takesValue then o.label ++ "=" ++ value.getD "--" else o.label

/-- What the argument holds besides the name of the option. -/
def Opt.attached (o : Opt) (value : Option String) : Attached :=
  if o.takesValue then .afterEquals (value.getD "--").toList else .nothing

theorem classify_given (ho : o ≠ .help) (value : Option String) :
    classify (o.given value).toList = .ok (.option o (o.attached value)) := by
  have hlabel : ∃ cs, o.label.toList = '-' :: '-' :: cs ∧ spelled? ('-' :: '-' :: cs) = some o := by
    cases o with
    | help => exact absurd rfl ho
    | host => exact ⟨_, rfl, rfl⟩
    | portNumber => exact ⟨_, rfl, rfl⟩
    | reload => exact ⟨_, rfl, rfl⟩
    | logLevel => exact ⟨_, rfl, rfl⟩
  obtain ⟨cs, hcs, hspelled⟩ := hlabel
  unfold Opt.given Opt.attached
  split_ifs
  · rw [String.toList_append, String.toList_append, hcs, ← classify_assignment hspelled]
    simp
  · rw [hcs, classify, classifyDashed, hspelled]

theorem given_ne_separator (ho : o ≠ .help) (value : Option String) : o.given value ≠ "--" := by
  intro h
  have hkind := classify_given ho value
  rw [h] at hkind
  nomatch hkind

theorem classifyAll_given {xs : List (Opt × Option String)} (h : ∀ x ∈ xs, x.1 ≠ .help) :
    classifyAll (xs.map fun x => x.1.given x.2) =
      .ok (xs.map fun x => (x.1.given x.2, .option x.1 (x.1.attached x.2))) := by
  induction xs with
  | nil => rfl
  | cons x xs ih =>
    obtain ⟨hx, hxs⟩ := List.forall_mem_cons.1 h
    rw [List.map_cons, classifyAll, if_neg (given_ne_separator hx x.2), classify_given hx, ih hxs]
    rfl

theorem attachedValue?_getD {value : Option String} (h : value ≠ some "--") :
    attachedValue? (value.getD "--").toList = value := by
  cases value with
  | none => rfl
  | some v =>
    have hne : v.toList ≠ ['-', '-'] := fun hv => h (congrArg some (String.toList_inj.1 hv))
    rw [Option.getD_some, attachedValue?, if_neg hne, String.ofList_toList]

/-- A given option is set before the arguments behind it are looked at. -/
theorem takeAll_given (s : Settings) (ho : o ≠ .help) {value : Option String}
    (h : value ≠ some "--") (a : String) (rest : List (String × Argument)) :
    takeAll s ((a, .option o (o.attached value)) :: rest) =
      s.set o value >>= fun s => takeAll s rest := by
  by_cases hv : o.takesValue = true
  · rw [Opt.attached, if_pos hv, takeAll, if_pos hv, attachedValue?_getD h]
  · obtain rfl : o = .reload := by
      cases o with
      | help => exact absurd rfl ho
      | reload => rfl
      | _ => exact absurd rfl hv
    cases rest with
    | nil => rfl
    | cons b rest =>
      obtain ⟨b, kind⟩ := b
      cases kind <;> rfl

/-- The settings with several options, one after the other. -/
def Settings.setAll (s : Settings) (xs : List (Opt × Option String)) : Except Stop Settings :=
  xs.foldlM (fun s x => s.set x.1 x.2) s

/-- **Options are set one after the other.**  A row of given options leaves no argument over: each
is set in turn, and the first whose value cannot be read ends the row. -/
theorem settingsOf_given {xs : List (Opt × Option String)}
    (h : ∀ x ∈ xs, x.1 ≠ .help ∧ x.2 ≠ some "--") :
    settingsOf (xs.map fun x => x.1.given x.2) = do return (← Settings.setAll {} xs, []) := by
  -- The settings vary, since each option changes those that the rest of the row starts from.
  have hrun : ∀ s : Settings,
      takeAll s (xs.map fun x => (x.1.given x.2, .option x.1 (x.1.attached x.2))) =
        do return (← s.setAll xs, []) := by
    induction xs with
    | nil => exact fun _ => rfl
    | cons x xs ih =>
      obtain ⟨hx, hxs⟩ := List.forall_mem_cons.1 h
      intro s
      rw [List.map_cons, takeAll_given s hx.1 hx.2, Settings.setAll, List.foldlM_cons]
      cases s.set x.1 x.2 with
      | error why => rfl
      | ok s' => exact ih hxs s'
  rw [settingsOf, classifyAll_given fun x hx => (h x hx).1]
  exact hrun {}

/-- The options that ask for the settings. -/
def Settings.options (s : Settings) : List (Opt × Option String) :=
  [(.host, s.host), (.portNumber, s.portNumber.map intText), (.logLevel, s.logLevel)] ++
    if s.reload then [(.reload, none)] else []

theorem set_portNumber (s : Settings) {n? : Option ℤ}
    (h : ∀ n, n? = some n → isWritable n = true) :
    s.set .portNumber (n?.map intText) = .ok { s with portNumber := n? } := by
  cases n? with
  | none => rfl
  | some n =>
    rw [Settings.set, Option.map_some, Option.mapM_some, integerOf, intOfText?_intText (h n rfl)]
    rfl

theorem setAll_options {s : Settings} (h : ∀ n, s.portNumber = some n → isWritable n = true) :
    Settings.setAll {} s.options = .ok s := by
  obtain ⟨host, n?, reload, logLevel⟩ := s
  have hvalues : Settings.setAll {} [(.host, host), (.portNumber, n?.map intText),
      (.logLevel, logLevel)] = .ok ⟨host, n?, false, logLevel⟩ := by
    rw [Settings.setAll, List.foldlM_cons, Settings.set]
    show (Settings.set _ .portNumber (n?.map intText) >>= _) = _
    rw [set_portNumber _ h]
    rfl
  rw [Settings.setAll] at hvalues ⊢
  rw [Settings.options, List.foldlM_append, hvalues]
  cases reload with
  | false => rfl
  | true => rfl

/-- The service starts exactly if no argument is left and the level is a known one. -/
theorem outcome_eq_start_iff {arguments : List String} {s : Settings} {level : Severity} :
    outcome arguments = .start s level ↔
      settingsOf arguments = .ok (s, []) ∧ s.logLevel.bind Severity.ofName? = some level := by
  refine ⟨?_, ?_⟩
  · intro h
    unfold outcome at h
    split at h
    · nomatch h
    · next t hsettings =>
      split at h
      · nomatch h
      · next name hname =>
        split at h
        · next level' hlevel =>
          cases h
          exact ⟨hsettings, Option.bind_eq_some_iff.2 ⟨name, hname, hlevel⟩⟩
        · nomatch h
    · nomatch h
  · rintro ⟨hsettings, hlevel⟩
    obtain ⟨name, hname, hlevel⟩ := Option.bind_eq_some_iff.1 hlevel
    simp only [outcome, hsettings, hname, hlevel]

theorem intText_ne_separator (n : ℤ) : intText n ≠ "--" := by
  intro h
  have hchars := congrArg String.toList h
  rw [intText, String.toList_ofList, intChars] at hchars
  split_ifs at hchars
  · exact natChars_ne_cons rfl _ _ (List.cons.inj hchars).2
  · exact natChars_ne_cons rfl _ _ hchars

theorem options_of_ne {s : Settings} (hhost : s.host ≠ some "--") (hname : s.logLevel ≠ some "--") :
    ∀ x ∈ s.options, x.1 ≠ .help ∧ x.2 ≠ some "--" := by
  have hport : s.portNumber.map intText ≠ some "--" := by
    intro h
    obtain ⟨n, -, hn⟩ := Option.map_eq_some_iff.1 h
    exact intText_ne_separator n hn
  intro x hx
  rw [Settings.options, List.mem_append] at hx
  simp only [List.mem_cons, List.not_mem_nil, or_false] at hx
  rcases hx with (rfl | rfl | rfl) | hx
  · exact ⟨nofun, hhost⟩
  · exact ⟨nofun, hport⟩
  · exact ⟨nofun, hname⟩
  · split_ifs at hx
    · obtain rfl := List.mem_singleton.1 hx
      exact ⟨nofun, nofun⟩
    · nomatch hx

/-- **All settings can be asked for.**  The settings whose level is a known one are those that the
service starts with after their options, if no text is a double dash and the port can be written. -/
theorem outcome_options {s : Settings} {level : Severity} (hhost : s.host ≠ some "--")
    (hport : ∀ n, s.portNumber = some n → isWritable n = true)
    (hlevel : s.logLevel.bind Severity.ofName? = some level) :
    outcome (s.options.map fun x => x.1.given x.2) = .start s level := by
  have hname : s.logLevel ≠ some "--" := by
    intro h
    rw [h] at hlevel
    exact absurd hlevel (by decide +revert)
  rw [outcome_eq_start_iff, settingsOf_given (options_of_ne hhost hname), setAll_options hport]
  exact ⟨rfl, hlevel⟩

/-! ### What is left over -/

/-- The argument has been told as one of the options. -/
def Argument.isOption : Argument → Bool
  | option .. => true
  | _ => false

theorem fst_of_classifyAll {as : List String} {kinds : List (String × Argument)}
    (h : classifyAll as = .ok kinds) : kinds.map Prod.fst = as := by
  induction as generalizing kinds with
  | nil =>
    cases h
    rfl
  | cons a as ih =>
    rw [classifyAll] at h
    split_ifs at h with ha
    · cases h
      rw [List.map_cons, List.map_map]
      exact congrArg (a :: ·) (List.map_id _)
    · obtain ⟨kind, -, h⟩ := bind_eq_ok_iff.1 h
      obtain ⟨rest, hrest, h⟩ := bind_eq_ok_iff.1 h
      cases h
      rw [List.map_cons, ih hrest]

theorem sublist_of_takeAll {s s' : Settings} {kinds : List (String × Argument)}
    {extras : List String} (h : takeAll s kinds = .ok (s', extras)) :
    extras.Sublist ((kinds.filter (!·.2.isOption)).map Prod.fst) := by
  -- Only the last case keeps an argument; a value that an option takes (`case4`) is passed over.
  fun_induction takeAll s kinds generalizing s' extras with
  | case1 =>
    cases h
    exact List.nil_sublist _
  | case2 s a o value rest hvalue ih =>
    obtain ⟨s₁, -, h⟩ := bind_eq_ok_iff.1 h
    exact ih s₁ h
  | case3 => nomatch h
  | case4 s a o attached value rest hattached hvalue ih =>
    obtain ⟨s₁, -, h⟩ := bind_eq_ok_iff.1 h
    exact (ih s₁ h).cons value
  | case5 s a o attached value rest hattached hvalue ih =>
    obtain ⟨s₁, -, h⟩ := bind_eq_ok_iff.1 h
    exact ih s₁ h
  | case6 => nomatch h
  | case7 s a o attached rest hattached hplain hvalue ih =>
    obtain ⟨s₁, -, h⟩ := bind_eq_ok_iff.1 h
    exact ih s₁ h
  | case8 s a kind rest hassigned hvalue hoption ih =>
    obtain ⟨⟨s₁, extras₁⟩, hrest, h⟩ := bind_eq_ok_iff.1 h
    cases h
    have hkind : kind.isOption = false := by
      cases kind with
      | option o attached => exact absurd rfl (hoption o attached)
      | _ => rfl
    rw [List.filter_cons_of_pos (by simp [hkind])]
    exact (ih hrest).cons_cons a

/-- **What is left over is no option.**  The arguments that are kept apart stand in their order
among those that are not told as options. -/
theorem sublist_of_settingsOf {arguments extras : List String} {s : Settings}
    (h : settingsOf arguments = .ok (s, extras)) : ∃ kinds, classifyAll arguments = .ok kinds ∧
      kinds.map Prod.fst = arguments ∧
      extras.Sublist ((kinds.filter (!·.2.isOption)).map Prod.fst) := by
  obtain ⟨kinds, hkinds, htake⟩ := bind_eq_ok_iff.1 h
  cases hall : classifyAll arguments with
  | error a =>
    rw [hall] at hkinds
    nomatch hkinds
  | ok kinds' =>
    rw [hall] at hkinds
    obtain rfl : kinds' = kinds := Except.ok.inj hkinds
    exact ⟨kinds', rfl, fst_of_classifyAll hall, sublist_of_takeAll htake⟩

end Launch

/-! ### The command -/

namespace Command

open Text

variable {arguments : List String}

/-- **The status says what the text is.**  It is 0 for a pattern and 1 for a fault, and there is no
other; without a status the command fails as reading does, with an empty group or a numeral that
cannot be read. -/
theorem run_outcome (arguments : List String) :
    ((∃ text, run arguments = .ok ⟨0, text⟩) ↔
      ∃ p, Pattern.ofNotation (arguments.headD sampleText) = .ok p) ∧
    ((∃ text, run arguments = .ok ⟨1, text⟩) ↔
      ∃ f, Pattern.ofNotation (arguments.headD sampleText) = .error (.fault f)) ∧
    (∀ output, run arguments = .ok output → output.status = 0 ∨ output.status = 1) ∧
    ∀ f, run arguments = .error f ↔
      Pattern.ofNotation (arguments.headD sampleText) = .error f ∧
        ((∃ inside juggler beat, f = .emptyGroup inside juggler beat) ∨
          ∃ part, f = .unreadableNumeral part) := by
  unfold run
  generalize arguments.headD sampleText = text
  rcases ofNotation_cases text with ⟨p, h⟩ | ⟨f, h⟩ | ⟨_, _, _, h⟩ | ⟨_, h⟩
  · simp [h]
  · simp [h]
  · simp [h]
  · simp [h]

/-- The line that is printed for a fault. -/
theorem run_of_fault {f : Fault}
    (h : Pattern.ofNotation (arguments.headD sampleText) = .error (.fault f)) :
    run arguments =
      .ok ⟨1, "[FAIL] kind=" ++ f.violation.kind.name ++ " " ++ f.message ++ "\n"⟩ := by
  rw [run, h]

/-- **What is printed for a fault tells the fault.** -/
theorem fault_eq_of_run_eq {arguments' : List String} {f g : Fault}
    (hf : Pattern.ofNotation (arguments.headD sampleText) = .error (.fault f))
    (hg : Pattern.ofNotation (arguments'.headD sampleText) = .error (.fault g))
    (h : run arguments = run arguments') : f = g := by
  rw [run_of_fault hf, run_of_fault hg] at h
  have htext := congrArg String.toList (Output.mk.inj (Except.ok.inj h)).2
  simp only [String.toList_append, List.append_assoc] at htext
  -- the kind ends at the first space behind it, and a line feed ends the message
  obtain ⟨-, hrest⟩ := append_cons_inj (Kind.space_not_mem_name _) (Kind.space_not_mem_name _)
    (List.append_cancel_left htext)
  exact eq_of_message_eq (reported_of_ofNotation hf) (reported_of_ofNotation hg)
    (List.append_cancel_right hrest)

end Command

end HandPath
