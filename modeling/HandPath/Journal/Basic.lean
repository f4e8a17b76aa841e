import HandPath.Text.Capital
import HandPath.Text.Quoted

/-!
# HandPath.Journal.Basic — levels, channels and the records they write

The journal has two channels, one for the compiler and one for the service. At first neither has an
output, and nothing is written. Configuring gives both the same level and one output at that level
in place of the outputs they had; a level that is not known changes nothing. A record is written
once for every output of its channel whose level it reaches, provided that it reaches the effective
level of the channel: its own level or, if that is `notSet`, the level of the root, which has no
output.
-/

namespace HandPath

/-- The levels of records, channels and outputs, in ascending order. -/
inductive Severity where
  | notSet
  | debug
  | info
  | warning
  | error
  | critical
deriving DecidableEq, Repr

namespace Severity

/-- The number by which levels are compared. -/
def rank : Severity → Nat
  | notSet => 0
  | debug => 10
  | info => 20
  | warning => 30
  | error => 40
  | critical => 50

/-- The name of the level in a line. -/
def label : Severity → String
  | notSet => "NOTSET"
  | debug => "DEBUG"
  | info => "INFO"
  | warning => "WARNING"
  | error => "ERROR"
  | critical => "CRITICAL"

/-- The level with a name, in whatever case; two levels have a second name. -/
def ofName? (name : String) : Option Severity :=
  [("CRITICAL", critical), ("FATAL", critical), ("ERROR", error), ("WARN", warning),
    ("WARNING", warning), ("INFO", info), ("DEBUG", debug), ("NOTSET", notSet)].lookup
      (Text.capitals name)

end Severity

namespace Journal

/-- The level of the root. -/
def rootLevel : Severity := .warning

/-- Which part of the program a record comes from. -/
inductive Source where
  | compiler
  | service
deriving DecidableEq, Repr

/-- The source as a line names it. -/
def Source.label : Source → String
  | compiler => "jugglehands.hands_text"
  | service => "jugglehands_backend.api.server"

/-- What is to be written, at what level and by which part of the program. -/
structure Record where
  severity : Severity
  source : Source
  message : String
deriving DecidableEq, Repr

/-- The record on a line that was written at the given time. -/
def Record.line (time : String) (r : Record) : String :=
  time ++ " [" ++ r.severity.label ++ "] " ++ r.source.label ++ ": " ++ r.message

/-! ### Channels -/

/-- A channel with the levels of its outputs; one that propagates hands its records on to the
root. -/
structure Channel where
  name : String
  level : Severity
  propagates : Bool
  outputs : List Severity
deriving DecidableEq, Repr

namespace Channel

/-- A channel before it is configured. -/
def unconfigured (name : String) : Channel := ⟨name, .notSet, true, []⟩

/-- The channel with a level and one output at that level, and nothing passed on to the root. -/
def configure (level : Severity) (c : Channel) : Channel :=
  { c with level := level, propagates := false, outputs := [level] }

variable (c : Channel)

/-- The level that records have to reach in the channel. -/
def effective : Severity := if c.level = .notSet then rootLevel else c.level

/-- The outputs that a record of severity `s` is written to. -/
def outputsFor (s : Severity) : List Severity :=
  if c.effective.rank ≤ s.rank then c.outputs.filter fun level => level.rank ≤ s.rank else []

end Channel

/-- Both channels. -/
structure Config where
  compiler : Channel
  service : Channel
deriving DecidableEq, Repr

namespace Config

/-- The configuration before any step: no output, and everything passed on to the root. -/
def initial : Config := ⟨.unconfigured "jugglehands", .unconfigured "jugglehands_backend"⟩

variable (config : Config)

/-- The channel that a part of the program writes to. -/
def channel : Source → Channel
  | .compiler => config.compiler
  | .service => config.service

def channels : List Channel := [config.compiler, config.service]

/-- Both channels at the level with a name; `none` if there is no such level. -/
def configure? (name : String) : Option Config :=
  (Severity.ofName? name).map fun level =>
    ⟨config.compiler.configure level, config.service.configure level⟩

/-- The records that are written, in order, each as often as it is. -/
def written (records : List Record) : List Record :=
  records.flatMap fun r => ((config.channel r.source).outputsFor r.severity).map fun _ => r

end Config

/-- The text of the error of a name that no level has. -/
def unknownLevelText (name : String) : String := "未知日志级别：" ++ Text.quoted name

end Journal

end HandPath
