import HandPath.Journal.Basic
import HandPath.Launch.Settings
import HandPath.Text.Quoted

/-!
# HandPath.Launch.Outcome — what comes of the arguments

The service starts if all arguments are options and their values, and the level of its journal is a
known one. Asking for help and misusing an option end with the texts below.
-/

namespace HandPath.Launch

open Text

/-- What comes of a start with the given arguments. -/
inductive Outcome where
  | start (s : Settings) (level : Severity)
  | unsupported (arguments : List String)
  | unknownLevel (name : String)
  /-- The journal was given no level. -/
  | missingLevel
  | stop (why : Stop)
deriving DecidableEq, Repr

/-- What comes of the arguments; those that are left over are looked at before the level is. -/
def outcome (arguments : List String) : Outcome :=
  match settingsOf arguments with
  | .error why => .stop why
  | .ok (s, []) =>
    match s.logLevel with
    | none => .missingLevel
    | some name =>
      match Severity.ofName? name with
      | some level => .start s level
      | none => .unknownLevel name
  | .ok (_, extras) => .unsupported extras

/-! ### Texts -/

/-- What the server is told to serve. -/
def application : String := "jugglehands_backend.api.server:app"

/-- The first lines of the help and of every complaint. -/
def usageText : String :=
  "usage: run_server.py [-h] [--host HOST] [--port PORT] [--reload]\n" ++
  "                     [--log-level LOG_LEVEL]\n"

def helpText : String :=
  usageText ++ "\noptions:\n" ++
  "  -h, --help            show this help message and exit\n" ++
  "  --host HOST\n" ++
  "  --port PORT\n" ++
  "  --reload\n" ++
  "  --log-level LOG_LEVEL\n"

/-- What was wrong with the arguments; nothing if help was asked for. -/
def Stop.complaint? : Stop → Option String
  | help => none
  | ambiguous a =>
    some ("ambiguous option: " ++ a.argument ++ " could match " ++ ", ".intercalate a.candidates)
  | missingValue o => some ("argument " ++ o.label ++ ": expected one argument")
  | unwantedValue o value =>
    some ("argument " ++ o.label ++ ": ignored explicit argument " ++ quoted (String.ofList value))
  | invalidInteger o value =>
    some ("argument " ++ o.label ++ ": invalid int value: " ++ quoted value)

/-- All that is printed about a misused option. -/
def errorText (complaint : String) : String :=
  usageText ++ "run_server.py: error: " ++ complaint ++ "\n"

/-- The text of a failure to read the level that the journal was not given. -/
def missingLevelText : String := "'list' object has no attribute 'upper'"

def unsupportedText (arguments : List String) : String := "不支持的参数：" ++ quotedList arguments

end HandPath.Launch
