import HandPath.Text.Quoted

/-!
# HandPath.Message.Template — texts with places for arguments

A template is a list of pieces: text, a place that takes an argument as it is, or a place that takes
it quoted. `source` is the template as it stands in a message table, places between braces.
-/

namespace HandPath

/-- A piece of a template: literal text, or a field for an argument. -/
inductive Template.Piece where
  | text (s : String)
  | argument (name : String)
  | quotedArgument (name : String)
deriving DecidableEq, Repr

/-- A text with places for arguments. -/
abbrev Template := List Template.Piece

namespace Template

/-- The piece as it is written in the table. -/
def Piece.source : Piece → String
  | text s => s
  | argument name => "\x7b" ++ name ++ "\x7d"
  | quotedArgument name => "\x7b" ++ name ++ "!r\x7d"

def Piece.argumentName? : Piece → Option String
  | text _ => none
  | argument name => some name
  | quotedArgument name => some name

variable (arguments : List (String × String))

/-- The value of an argument, empty if it is not given. -/
def valueOf (name : String) : String := (arguments.lookup name).getD ""

def Piece.expand : Piece → String
  | text s => s
  | argument name => valueOf arguments name
  | quotedArgument name => Text.quoted (valueOf arguments name)

variable (t : Template)

/-- The template as it is written in the table. -/
def source : String := String.join (t.map Piece.source)

/-- The template with the arguments in their places. -/
def expand : String := String.join (t.map (Piece.expand arguments))

@[simp] theorem expand_nil : expand arguments [] = "" := rfl

@[simp] theorem expand_cons (p : Piece) :
    expand arguments (p :: t) = p.expand arguments ++ expand arguments t := String.join_cons

/-- The first argument that the template asks for and that is not given. -/
def missing? : Option String :=
  (t.filterMap Piece.argumentName?).find? fun name => (arguments.lookup name).isNone

end Template

end HandPath
