import HandPath.Launch.Argument
import HandPath.Text.Integer

/-!
# HandPath.Launch.Settings — how the service is to be started

Options are taken from left to right, a later one replacing an earlier one. A double dash after the
equals sign of an option says that it has no value at all. Arguments that are neither options nor
values of one are kept apart.
-/

namespace HandPath.Launch

open Text

/-- The settings; `none` for an option that was given no value. -/
structure Settings where
  host : Option String := some "127.0.0.1"
  portNumber : Option Int := some 7140
  reload : Bool := false
  logLevel : Option String := some "info"
deriving DecidableEq, Repr

/-- The directories that are watched for changes, if any are. -/
def Settings.reloadDirs? (s : Settings) : Option (List String) :=
  if s.reload then some ["backend/src"] else none

/-- What ends the reading of options before the arguments do. -/
inductive Stop where
  | help
  | ambiguous (a : Ambiguity)
  | missingValue (o : Opt)
  | unwantedValue (o : Opt) (value : List Char)
  | invalidInteger (o : Opt) (value : String)
deriving DecidableEq, Repr

/-- The integer that the value of an option denotes. -/
def integerOf (o : Opt) (value : String) : Except Stop Int :=
  match intOfText? value with
  | some n => .ok n
  | none => .error (.invalidInteger o value)

/-- The settings with an option: help ends the reading, and a value is looked at only by the options
that take one. -/
def Settings.set (s : Settings) (o : Opt) (value : Option String) : Except Stop Settings :=
  match o with
  | .host => .ok { s with host := value }
  | .portNumber => do return { s with portNumber := ← value.mapM (integerOf o) }
  | .logLevel => .ok { s with logLevel := value }
  | .help => .error .help
  | .reload => .ok { s with reload := true }

/-- What comes of the characters after the letter for help: that letter may be repeated, and from
the first other character on they are a value that is not wanted. -/
def stopOfLetters : List Char → Stop
  | ['h'] => .help
  | 'h' :: cs => stopOfLetters cs
  | cs => .unwantedValue .help cs

/-- An option that takes no value. -/
def Settings.flag (s : Settings) (o : Opt) : Attached → Except Stop Settings
  | .nothing => s.set o none
  | .afterEquals value => .error (.unwantedValue o value)
  | .letters rest => .error (stopOfLetters rest)

/-- The value that is attached to an option; a double dash is none. -/
def attachedValue? (value : List Char) : Option String :=
  if value = ['-', '-'] then none else some (String.ofList value)

/-- The settings after all arguments, and the arguments that are left. -/
def takeAll (s : Settings) : List (String × Argument) → Except Stop (Settings × List String)
  | [] => .ok (s, [])
  | (_, .option o (.afterEquals value)) :: rest =>
    if o.takesValue then do takeAll (← s.set o (attachedValue? value)) rest
    else .error (.unwantedValue o value)
  | (_, .option o attached) :: (value, .plain) :: rest =>
    if o.takesValue then do takeAll (← s.set o (some value)) rest
    else do takeAll (← s.flag o attached) ((value, .plain) :: rest)
  | (_, .option o attached) :: rest =>
    if o.takesValue then .error (.missingValue o)
    else do takeAll (← s.flag o attached) rest
  | (a, _) :: rest => do
    let (s, extras) ← takeAll s rest
    return (s, a :: extras)

/-- The settings that arguments ask for, and the arguments that are left. -/
def settingsOf (arguments : List String) : Except Stop (Settings × List String) := do
  takeAll {} (← (classifyAll arguments).mapError .ambiguous)

end HandPath.Launch
