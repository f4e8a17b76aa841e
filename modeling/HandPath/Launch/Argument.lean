import HandPath.Text.Digit

/-!
# HandPath.Launch.Argument — telling options from other arguments

An argument that begins with a dash may be an option: written out, with a value after an equals
sign, or shortened to any beginning that only one long option has. What follows a one-letter option
in the same argument, directly or after an equals sign, is read as more letters. A dash alone, a
negative number and a text with a space are no options and may be values of one. After a double dash
nothing is an option. An ambiguous beginning is an error wherever it stands.
-/

namespace HandPath.Launch

open Text

/-- The options of the service. -/
inductive Opt where
  | help
  | host
  | portNumber
  | reload
  | logLevel
deriving DecidableEq, Repr

namespace Opt

/-- Every spelling of an option, in the order of the usage text. -/
def spellings : List (String × Opt) :=
  [("-h", help), ("--help", help), ("--host", host), ("--port", portNumber), ("--reload", reload),
    ("--log-level", logLevel)]

def takesValue : Opt → Bool
  | host => true
  | portNumber => true
  | logLevel => true
  | _ => false

/-- The option as messages name it. -/
def label : Opt → String
  | help => "-h/--help"
  | host => "--host"
  | portNumber => "--port"
  | reload => "--reload"
  | logLevel => "--log-level"

end Opt

/-- What an option's own argument holds besides its name. -/
inductive Attached where
  | nothing
  | afterEquals (value : List Char)
  /-- The characters after a one-letter option; an equals sign between is left out. -/
  | letters (rest : List Char)
deriving DecidableEq, Repr

/-- What an argument is told as before any value is looked at. -/
inductive Argument where
  | plain
  | separator
  | option (o : Opt) (attached : Attached)
  | unknownOption
deriving DecidableEq, Repr

/-- An argument that several options may be meant by. -/
structure Ambiguity where
  argument : String
  candidates : List String
deriving DecidableEq, Repr

/-- Digits without a point or with one that digits follow, after a dash; a line feed at the end does
not count. -/
def isNegativeNumber : List Char → Bool
  | '-' :: cs =>
    let cs := if cs.getLast? = some '\n' then cs.dropLast else cs
    match cs.dropWhile isDigit with
    | [] => !cs.isEmpty
    | '.' :: rest => !rest.isEmpty && rest.all isDigit
    | _ => false
  | _ => false

/-- What an equals sign attaches to the spelling before it. -/
def attachedTo : List Char → List Char → Attached
  | ['-', _], rest => .letters rest
  | _, value => .afterEquals value

/-- The part before the first equals sign, and what is attached after it. -/
def splitEquals (cs : List Char) : List Char × Attached :=
  let name := cs.takeWhile (· ≠ '=')
  match cs.dropWhile (· ≠ '=') with
  | [] => (cs, .nothing)
  | _ :: rest => (name, attachedTo name rest)

/-- The options that an argument may mean which is not one of their spellings. -/
def interpretations (cs : List Char) : List (String × Opt × Attached) :=
  match cs with
  | '-' :: '-' :: _ =>
    let (name, attached) := splitEquals cs
    (Opt.spellings.filter fun s => name.isPrefixOf s.1.toList).map fun s => (s.1, s.2, attached)
  | '-' :: c :: rest =>
    (Opt.spellings.filter fun s => s.1.toList = ['-', c]).map fun s => (s.1, s.2, .letters rest)
  | _ => []

/-- The option with exactly this spelling. -/
def spelled? (cs : List Char) : Option Opt := Opt.spellings.lookup (String.ofList cs)

/-- An argument that begins with a dash and is longer than it. -/
def classifyDashed (cs : List Char) : Except Ambiguity Argument :=
  match spelled? cs, spelled? (splitEquals cs).1 with
  | some o, _ => .ok (.option o .nothing)
  | none, some o => .ok (.option o (splitEquals cs).2)
  | none, none =>
    match interpretations cs with
    | [] =>
      .ok (if isNegativeNumber cs || cs.contains ' ' then .plain else .unknownOption)
    | [(_, o, attached)] => .ok (.option o attached)
    | candidates => .error ⟨String.ofList cs, candidates.map Prod.fst⟩

/-- What an argument is that stands before a double dash. -/
def classify (cs : List Char) : Except Ambiguity Argument :=
  match cs with
  | '-' :: _ :: _ => classifyDashed cs
  | _ => .ok .plain

/-- The arguments, each with what it is. -/
def classifyAll : List String → Except Ambiguity (List (String × Argument))
  | [] => .ok []
  | a :: rest =>
    if a = "--" then .ok ((a, .separator) :: rest.map fun b => (b, .plain))
    else do
      let kind ← classify a.toList
      return (a, kind) :: (← classifyAll rest)

end HandPath.Launch
