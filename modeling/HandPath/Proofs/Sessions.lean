import HandPath.Journal.Session
import HandPath.Proofs.Precedence
import Mathlib.Data.List.Induction

/-!
# HandPath.Proofs.Sessions — what a session writes, after any steps

The configuration that a session has reached is that of the last known level it was given
(`configAfter_initial`): a step keeps it so (`next_ofLevel?`).  Under such a configuration a record
is written once or not at all (`written_ofLevel?`).  The records of a compilation are told by its
segment texts (`CompilationRecords`), those of a request by the text that it has compiled
(`textOf?`).  This text and the status of the answer are all that is said of how the framework
around the service finds a route and checks a body.

Main statement (`session_entry`): every step of every session answers as it does in any other
session, and writes what `Entry` says of the last known level before it.
-/

namespace HandPath.Journal

open Notation Service

/-! ### Levels -/

/-- The level that a step sets, if it sets a known one. -/
def Step.level? : Step → Option Severity
  | configure name => Severity.ofName? name
  | _ => none

/-- The level that the last step with a known level sets. -/
def lastLevel (steps : List Step) : Option Severity := (steps.filterMap Step.level?).getLast?

/-- Both channels with one output at a level, or as they are at first if there is no level. -/
def Config.ofLevel? : Option Severity → Config
  | none => .initial
  | some level =>
    ⟨⟨"jugglehands", level, false, [level]⟩, ⟨"jugglehands_backend", level, false, [level]⟩⟩

variable {level : Option Severity}

theorem lastLevel_concat (steps : List Step) (s : Step) :
    lastLevel (steps ++ [s]) = s.level?.or (lastLevel steps) := by
  unfold lastLevel
  rw [List.filterMap_append]
  cases h : s.level? with
  | none => rw [List.filterMap_cons_none h, List.filterMap_nil, List.append_nil, Option.none_or]
  | some l =>
    rw [List.filterMap_cons_some h, List.filterMap_nil, List.getLast?_concat, Option.some_or]

theorem configure?_initial (name : String) : Config.initial.configure? name =
    (Severity.ofName? name).map fun l => .ofLevel? (some l) := rfl

/-- What configuring leads to does not depend on the level that was set before. -/
theorem configure?_ofLevel? (level : Option Severity) (name : String) :
    (Config.ofLevel? level).configure? name = Config.initial.configure? name := by
  cases level with
  | none => rfl
  | some l => rfl

theorem next_ofLevel? (s : Step) (level : Option Severity) :
    s.next (.ofLevel? level) = .ofLevel? (s.level?.or level) := by
  cases s with
  | configure name =>
    rw [Step.next, configure?_ofLevel?, configure?_initial, Step.level?]
    cases Severity.ofName? name with
    | none => rfl
    | some l => rfl
  | compile text => rfl
  | request r => rfl

/-- The configuration that is reached is that of the last known level. -/
theorem configAfter_initial (steps : List Step) :
    configAfter .initial steps = .ofLevel? (lastLevel steps) := by
  -- From the end: the last step sets the level, or keeps that of the steps before it.
  induction steps using List.reverseRecOn with
  | nil => rfl
  | append_singleton steps s ih =>
    have hconcat : configAfter .initial (steps ++ [s]) = s.next (configAfter .initial steps) :=
      List.foldl_concat ..
    rw [hconcat, ih, next_ofLevel?, lastLevel_concat]

/-! ### Steps of a session -/

theorem length_session (config : Config) (steps : List Step) :
    (session config steps).length = steps.length := by
  induction steps generalizing config with
  | nil => rfl
  | cons s steps ih => rw [session, List.length_cons, List.length_cons, ih]

theorem session_append (config : Config) (before after : List Step) :
    session config (before ++ after) =
      session config before ++ session (configAfter config before) after := by
  induction before generalizing config with
  | nil => rfl
  | cons s before ih =>
    rw [List.cons_append, session, session, ih, List.cons_append]
    rfl

theorem getElem?_session (config : Config) (before after : List Step) (s : Step) :
    (session config (before ++ s :: after))[before.length]? =
      some (s.outcome (configAfter config before),
        (configAfter config before).written s.records) := by
  rw [session_append, List.getElem?_append_right (Nat.le_of_eq (length_session config before)),
    length_session, Nat.sub_self]
  rfl

/-- The outcome of a step does not depend on the level. -/
theorem outcome_ofLevel? (s : Step) (level : Option Severity) :
    s.outcome (.ofLevel? level) = s.outcome .initial := by
  cases s with
  | configure name => rw [Step.outcome, Step.outcome, configure?_ofLevel?]
  | compile text => rfl
  | request r => rfl

/-! ### Records that are written -/

/-- A severity reaches a level that is set; `notSet` leaves the level to the root. -/
def shows : Option Severity → Severity → Bool
  | none, _ => false
  | some level, s => decide ((if level = .notSet then rootLevel else level).rank ≤ s.rank)

theorem shows_debug : shows level .debug = true ↔ level = some .debug := by
  rcases level with _ | l
  · decide
  · cases l <;> decide

theorem shows_info : shows level .info = true ↔ level = some .debug ∨ level = some .info := by
  rcases level with _ | l
  · decide
  · cases l <;> decide

theorem outputsFor_single (name : String) (level s : Severity) :
    (Channel.mk name level false [level]).outputsFor s =
      if shows (some level) s then [level] else [] := by
  cases level <;> cases s <;> rfl

theorem outputsFor_ofLevel? (level : Option Severity) (r : Record) :
    ((((Config.ofLevel? level).channel r.source).outputsFor r.severity).map fun _ => r) =
      if shows level r.severity then [r] else [] := by
  obtain ⟨severity, source, message⟩ := r
  rcases level with _ | l
  · cases source <;> cases severity <;> rfl
  · cases source <;>
    · rw [Config.ofLevel?, Config.channel, outputsFor_single]
      split_ifs <;> rfl

theorem written_append (config : Config) (rs rs' : List Record) :
    config.written (rs ++ rs') = config.written rs ++ config.written rs' :=
  List.flatMap_append

/-- Every record that is shown is written once. -/
theorem written_ofLevel? (level : Option Severity) (rs : List Record) :
    (Config.ofLevel? level).written rs = rs.filter fun r => shows level r.severity := by
  induction rs with
  | nil => rfl
  | cons r rs ih =>
    have hcons : (Config.ofLevel? level).written (r :: rs) =
        (if shows level r.severity then [r] else []) ++ (Config.ofLevel? level).written rs := by
      rw [← outputsFor_ofLevel?]
      rfl
    rw [hcons, ih, List.filter_cons]
    split_ifs <;> rfl

/-! ### Records of a compilation -/

/-- The segment text compiles to the segment, whichever juggler it is for. -/
def CompilesTo (cs : List Char) (g : Segment) : Prop := ∀ juggler, compileSegment juggler cs = .ok g

theorem compilesTo_of_eq_ok {juggler : Int} {cs : List Char} {g : Segment}
    (h : compileSegment juggler cs = .ok g) : CompilesTo cs g :=
  fun juggler' => compileSegment_of_segmentText juggler' (segmentText_of_compileSegment h)

/-- A record for each segment, in order. -/
def segmentRecords (gs : List Segment) : List Record :=
  gs.mapIdx fun i g => segmentRecord (i + 1) g

/-- The records of a compilation: one for each segment up to the first whose text does not compile
and, if there are segments and all of them compile, one for the whole. -/
inductive CompilationRecords (text : String) : List Record → Prop
  | noSegment : segmentTexts text.toList = [] → CompilationRecords text []
  | complete {gs} : segmentTexts text.toList ≠ [] →
      List.Forall₂ CompilesTo (segmentTexts text.toList) gs →
      CompilationRecords text (segmentRecords gs ++ [patternRecord ⟨gs⟩])
  | cut {before cs after gs} : segmentTexts text.toList = before ++ cs :: after →
      List.Forall₂ CompilesTo before gs → ¬ Compiles cs →
      CompilationRecords text (segmentRecords gs)

/-- A run keeps the segments of all texts, or of those before the first that does not compile. -/
theorem runFrom_cases (juggler : Int) (texts : List (List Char)) :
    (runFrom juggler texts).failure = none ∧
        List.Forall₂ CompilesTo texts (runFrom juggler texts).finished ∨
      ∃ before cs after f, texts = before ++ cs :: after ∧
        List.Forall₂ CompilesTo before (runFrom juggler texts).finished ∧ ¬ Compiles cs ∧
        (runFrom juggler texts).failure = some f := by
  induction texts generalizing juggler with
  | nil => exact .inl ⟨rfl, .nil⟩
  | cons text texts ih =>
    rw [runFrom]
    cases hc : compileSegment juggler text with
    | error f => exact .inr ⟨[], text, texts, f, rfl, .nil, not_compiles_of_eq_error hc, rfl⟩
    | ok g =>
      have hg := compilesTo_of_eq_ok hc
      rcases ih (juggler + 1) with ⟨hf, hgs⟩ | ⟨before, cs, after, f, rfl, hgs, hcs, hf⟩
      · exact .inl ⟨hf, .cons hg hgs⟩
      · exact .inr ⟨text :: before, cs, after, f, rfl, .cons hg hgs, hcs, hf⟩

theorem runRecords_of_none {r : Run} (h : r.failure = none) :
    runRecords r = segmentRecords r.finished ++ [patternRecord ⟨r.finished⟩] := by
  rw [runRecords, Run.result, h]
  rfl

theorem runRecords_of_some {r : Run} {f : Failure} (h : r.failure = some f) :
    runRecords r = segmentRecords r.finished := by
  rw [runRecords, Run.result, h]
  exact List.append_nil _

theorem compilationRecords_run (text : String) :
    CompilationRecords text (runRecords (run text.toList)) := by
  by_cases hne : segmentTexts text.toList = []
  · rw [run, hne]
    exact .noSegment hne
  have hrun : run text.toList = runFrom 1 (segmentTexts text.toList) := by
    rw [run]
    split
    · contradiction
    · rfl
  rw [hrun]
  rcases runFrom_cases 1 (segmentTexts text.toList) with
    ⟨hf, hgs⟩ | ⟨before, cs, after, f, htexts, hgs, hcs, hf⟩
  · rw [runRecords_of_none hf]
    exact .complete hne hgs
  · rw [runRecords_of_some hf]
    exact .cut htexts hgs hcs

/-- What holds of the records of segments and of patterns holds of those of a compilation. -/
theorem CompilationRecords.of_mem {P : Record → Prop}
    (hsegment : ∀ juggler g, P (segmentRecord juggler g)) (hpattern : ∀ p, P (patternRecord p))
    {text : String} {rs : List Record} (h : CompilationRecords text rs) {r : Record}
    (hr : r ∈ rs) : P r := by
  have hsegments : ∀ gs, ∀ r ∈ segmentRecords gs, P r := by
    intro gs r hr
    obtain ⟨i, hi, rfl⟩ := List.mem_mapIdx.1 hr
    exact hsegment (i + 1) gs[i]
  cases h with
  | noSegment => nomatch hr
  | complete =>
    rcases List.mem_append.1 hr with hr | hr
    · exact hsegments _ r hr
    · rw [List.mem_singleton.1 hr]
      exact hpattern _
  | cut => exact hsegments _ r hr

theorem CompilationRecords.severity {text : String} {rs : List Record}
    (h : CompilationRecords text rs) {r : Record} (hr : r ∈ rs) : r.severity = .debug :=
  h.of_mem (P := fun r => r.severity = .debug) (fun _ _ => rfl) (fun _ => rfl) hr

/-- The records of a compilation are written at the level `debug` only, and then all of them. -/
theorem CompilationRecords.written {text : String} {rs : List Record}
    (h : CompilationRecords text rs) (level : Option Severity) :
    (Config.ofLevel? level).written rs = if level = some .debug then rs else [] := by
  rw [written_ofLevel?]
  split_ifs with hlevel
  · refine List.filter_eq_self.2 fun r hr => ?_
    rw [h.severity hr]
    exact shows_debug.2 hlevel
  · refine List.filter_eq_nil_iff.2 fun r hr => ?_
    rw [h.severity hr]
    exact mt shows_debug.1 hlevel

/-! ### Records of a request -/

/-- The text that a request has compiled, if a route takes it and accepts its body. -/
def textOf? (r : Request) : Option String :=
  match r.route? with
  | .ok route => route.text? r.body
  | .error _ => none

section

variable {r : Request} {text : String}

theorem textOf?_of_route? {route : Route} (h : r.route? = .ok route) :
    textOf? r = route.text? r.body := by
  unfold textOf?
  rw [h]

theorem textOf?_of_error {response : Response} (h : r.route? = .error response) :
    textOf? r = none := by
  unfold textOf?
  rw [h]

theorem records_request (r : Request) : r.records = ((textOf? r).map textRecords).getD [] := by
  unfold Request.records
  cases hroute : r.route? with
  | error response => rw [textOf?_of_error hroute]; rfl
  | ok route => rw [textOf?_of_route? hroute]

theorem textRecords_of_fault {f : Fault} (h : Pattern.ofNotation text = .error (.fault f)) :
    textRecords text = runRecords (run text.toList) ++ [rejectionRecord text f] := by
  have hf : (run text.toList).failure = some (.fault f) := result_eq_error_iff.1 h
  rw [textRecords, hf]

theorem textRecords_of_ne_fault (h : ∀ f, Pattern.ofNotation text ≠ .error (.fault f)) :
    textRecords text = runRecords (run text.toList) := by
  rw [textRecords]
  cases hf : (run text.toList).failure with
  | none => exact List.append_nil _
  | some f =>
    cases f with
    | fault f => exact absurd (result_eq_error_iff.2 hf) (h f)
    | emptyGroup => exact List.append_nil _
    | unreadableNumeral => exact List.append_nil _
    | outOfRange => exact List.append_nil _

theorem written_rejectionRecord (level : Option Severity) (text : String) (f : Fault) :
    (Config.ofLevel? level).written [rejectionRecord text f] =
      if level = some .debug ∨ level = some .info then [rejectionRecord text f] else [] := by
  have hsingle : (Config.ofLevel? level).written [rejectionRecord text f] =
      if shows level .info then [rejectionRecord text f] else [] :=
    (written_ofLevel? level _).trans (List.filter_cons ..)
  rw [hsingle]
  simp only [shows_info]

/-- A text is answered with status 400 exactly if it has a fault. -/
theorem status_answer {respond : Pattern → Response} (h : ∀ p, (respond p).status ≠ 400) :
    (answer text respond).status = 400 ↔ ∃ f, Pattern.ofNotation text = .error (.fault f) := by
  rw [answer]
  cases Pattern.ofNotation text with
  | ok p => simpa using h p
  | error f =>
    cases f with
    | fault f => exact ⟨fun _ => ⟨f, rfl⟩, fun _ => rfl⟩
    | emptyGroup => simp [Response.status]
    | unreadableNumeral => simp [Response.status]
    | outOfRange => simp [Response.status]

theorem status_respondCoordinate (q : CoordinateQuestion) (p : Pattern) :
    (respondCoordinate q p).status ≠ 400 := by
  rw [respondCoordinate]
  cases coordinateView q p with
  | ok d => exact (by decide : 200 ≠ 400)
  | error e => exact (by decide : 500 ≠ 400)

/-- A route refuses the body, or it answers the text that it compiles. -/
theorem respond_cases (route : Route) (body : Option Document) :
    (route.text? body = none ∧ (route.respond body).status ≠ 400) ∨
      ∃ text respond, route.text? body = some text ∧ route.respond body = answer text respond ∧
        ∀ p, (respond p).status ≠ 400 := by
  cases route with
  | health => exact .inl ⟨rfl, (by decide : 200 ≠ 400)⟩
  | compile =>
    rw [Route.text?, Route.respond]
    cases compileBody body with
    | error errors => exact .inl ⟨rfl, (by decide : 422 ≠ 400)⟩
    | ok text => exact .inr ⟨text, _, rfl, rfl, fun p => (by decide : 200 ≠ 400)⟩
  | coordinate =>
    rw [Route.text?, Route.respond]
    cases coordinateBody body with
    | error errors => exact .inl ⟨rfl, (by decide : 422 ≠ 400)⟩
    | ok q => exact .inr ⟨q.text, _, rfl, rfl, status_respondCoordinate q⟩

theorem status_of_route?_eq_error {response : Response} (h : r.route? = .error response) :
    response.status ≠ 400 := by
  rcases Request.eq_of_route?_eq_error h with hpage | hmethod
  · rw [hpage]
    unfold Request.pageResponse
    split
    · exact (by decide : 404 ≠ 400)
    · split_ifs
      · exact (by decide : 200 ≠ 400)
      · exact (by decide : 405 ≠ 400)
  · rw [hmethod]
    exact (by decide : 405 ≠ 400)

/-- A request is answered with status 400 exactly if the text that it has compiled has a fault. -/
theorem status_eq_400_iff : r.response.status = 400 ↔
    ∃ text f, textOf? r = some text ∧ Pattern.ofNotation text = .error (.fault f) := by
  cases hroute : r.route? with
  | error response =>
    rw [Request.response_of_error hroute, textOf?_of_error hroute]
    simpa using status_of_route?_eq_error hroute
  | ok route =>
    rw [Request.response_of_route? hroute, textOf?_of_route? hroute]
    rcases respond_cases route r.body with ⟨htext, hne⟩ | ⟨text, respond, htext, hanswer, hne⟩
    · simpa [htext] using hne
    · rw [hanswer, status_answer hne, htext]
      simp

end

/-! ### Entries -/

/-- What a step answers and writes if `level` is the last known level before it.  A compilation, on
its own or for a request, writes its records at the level `debug` only; a request that is answered
with status 400 then writes one more, at the levels `debug` and `info`. -/
inductive Entry (level : Option Severity) : Step → Outcome → List Record → Prop
  | configured {name l} : Severity.ofName? name = some l →
      Entry level (.configure name) (.configured (Config.ofLevel? (some l)).channels) []
  | unknownLevel {name} : Severity.ofName? name = none →
      Entry level (.configure name) (.unknownLevel name) []
  | compiled {text p rs} : Pattern.ofNotation text = .ok p → CompilationRecords text rs →
      Entry level (.compile text) (.compiled p.jugglers) (if level = some .debug then rs else [])
  | failed {text f rs} : Pattern.ofNotation text = .error f → CompilationRecords text rs →
      Entry level (.compile text) (.failed f) (if level = some .debug then rs else [])
  | rejected {r text f rs} : textOf? r = some text → Pattern.ofNotation text = .error (.fault f) →
      r.response.status = 400 → CompilationRecords text rs →
      Entry level (.request r) (.responded 400) ((if level = some .debug then rs else []) ++
        if level = some .debug ∨ level = some .info then [rejectionRecord text f] else [])
  | answered {r text rs} : textOf? r = some text → r.response.status ≠ 400 →
      CompilationRecords text rs →
      Entry level (.request r) (.responded r.response.status)
        (if level = some .debug then rs else [])
  | notCompiled {r} : textOf? r = none → r.response.status ≠ 400 →
      Entry level (.request r) (.responded r.response.status) []

theorem entry_configure (level : Option Severity) (name : String) :
    Entry level (.configure name) (Step.outcome .initial (.configure name)) [] := by
  rw [Step.outcome, configure?_initial]
  cases h : Severity.ofName? name with
  | none => exact .unknownLevel h
  | some l => exact .configured h

theorem entry_compile (level : Option Severity) (text : String) :
    Entry level (.compile text) (Step.outcome .initial (.compile text))
      ((Config.ofLevel? level).written (runRecords (run text.toList))) := by
  have hrecords := compilationRecords_run text
  rw [hrecords.written, Step.outcome]
  cases h : Pattern.ofNotation text with
  | ok p => exact .compiled h hrecords
  | error f => exact .failed h hrecords

theorem entry_request (level : Option Severity) (r : Request) :
    Entry level (.request r) (.responded r.response.status)
      ((Config.ofLevel? level).written r.records) := by
  rw [records_request]
  cases htext : textOf? r with
  | none =>
    refine .notCompiled htext fun h => ?_
    obtain ⟨text, f, hsome, -⟩ := status_eq_400_iff.1 h
    rw [htext] at hsome
    nomatch hsome
  | some text =>
    have hrecords := compilationRecords_run text
    rw [Option.map_some, Option.getD_some]
    -- Only a fault gets status 400, and only a fault adds the record of the rejection.
    by_cases hstatus : r.response.status = 400
    · obtain ⟨text', f, hsome, hf⟩ := status_eq_400_iff.1 hstatus
      obtain rfl := Option.some.inj (htext.symm.trans hsome)
      rw [hstatus, textRecords_of_fault hf, written_append, hrecords.written,
        written_rejectionRecord]
      exact .rejected htext hf hstatus hrecords
    · have hne : ∀ f, Pattern.ofNotation text ≠ .error (.fault f) :=
        fun f hf => hstatus (status_eq_400_iff.2 ⟨text, f, htext, hf⟩)
      rw [textRecords_of_ne_fault hne, hrecords.written]
      exact .answered htext hstatus hrecords

theorem entry_of_step (level : Option Severity) (s : Step) :
    Entry level s (s.outcome .initial) ((Config.ofLevel? level).written s.records) := by
  cases s with
  | configure name => exact entry_configure level name
  | compile text => exact entry_compile level text
  | request r => exact entry_request level r

/-- **What a session writes.**  Every step has one outcome, whatever steps are taken before it and
after it.  The configuration before it and the one after it are those of the last known level: as at
first if there is none, and else each channel has one output at that level.  So a step that sets an
unknown level changes nothing; and a step writes records of its own, each at most once: those that
`Entry` tells. -/
theorem session_entry (s : Step) : ∃ outcome, ∀ before after : List Step,
    configAfter .initial before = .ofLevel? (lastLevel before) ∧
    configAfter .initial (before ++ [s]) = .ofLevel? (lastLevel (before ++ [s])) ∧
    (s.level? = none → configAfter .initial (before ++ [s]) = configAfter .initial before) ∧
    ∃ lines, (session .initial (before ++ s :: after))[before.length]? = some (outcome, lines) ∧
      lines.Sublist s.records ∧ Entry (lastLevel before) s outcome lines := by
  refine ⟨s.outcome .initial, fun before after => ⟨configAfter_initial before,
    configAfter_initial (before ++ [s]), ?_, (Config.ofLevel? (lastLevel before)).written s.records,
    ?_, ?_, entry_of_step (lastLevel before) s⟩⟩
  · intro hs
    rw [configAfter_initial, configAfter_initial, lastLevel_concat, hs, Option.none_or]
  · rw [getElem?_session, configAfter_initial, outcome_ofLevel?]
  · rw [written_ofLevel?]
    exact List.filter_sublist

/-- The segment before the one that fails has its record, and the compilation as a whole has
none. -/
example : (session .initial [.configure "debug", .compile "(1)(2).|x"]).map Prod.snd =
    [[], [⟨.debug, .compiler, "hands segment 1: period=1 coords=[2]"⟩]] := by
  decide +kernel

end HandPath.Journal
