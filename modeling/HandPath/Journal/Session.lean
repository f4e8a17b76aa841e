import HandPath.Service.Respond

/-!
# HandPath.Journal.Session — what a sequence of steps writes

A session configures the journal, compiles texts and answers requests in any order. Its only state
is the configuration; only a step that configures a known level changes it.
-/

namespace HandPath.Journal

/-- What can be done in a session. -/
inductive Step where
  | configure (level : String)
  | compile (text : String)
  | request (r : Service.Request)

/-- What a step answers. -/
inductive Outcome where
  | configured (channels : List Channel)
  | unknownLevel (name : String)
  | compiled (jugglers : Nat)
  | failed (f : Failure)
  | responded (status : Nat)

namespace Step

variable (config : Config)

/-- The configuration after a step. -/
def next : Step → Config
  | configure name => (config.configure? name).getD config
  | _ => config

/-- What a step answers, apart from what it writes. -/
def outcome : Step → Outcome
  | configure name =>
    match config.configure? name with
    | some config => .configured config.channels
    | none => .unknownLevel name
  | compile text =>
    match Pattern.ofNotation text with
    | .ok p => .compiled p.jugglers
    | .error f => .failed f
  | request r => .responded r.response.status

/-- The records of a step, whether they are written or not. -/
def records : Step → List Record
  | configure _ => []
  | compile text => runRecords (Notation.run text.toList)
  | request r => r.records

end Step

/-- The outcomes of the steps, each with the records that it writes. -/
def session : Config → List Step → List (Outcome × List Record)
  | _, [] => []
  | config, s :: ss =>
    (s.outcome config, config.written s.records) :: session (s.next config) ss

/-- The configuration after all steps. -/
def configAfter (config : Config) (steps : List Step) : Config :=
  steps.foldl (fun config s => s.next config) config

end HandPath.Journal
