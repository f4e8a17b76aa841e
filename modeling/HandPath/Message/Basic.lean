import HandPath.Message.Catalogue
import HandPath.Text.Integer

/-!
# HandPath.Message.Basic — the messages of faults and failures

The message of a fault is the template of its kind with its arguments, followed by the place:
nothing if no segment is known, else the number of the segment and, if known, that of the beat
counted from one. These numbers count the segments and the beats of a text, so that no bound on the
digits of a number that is written is met here.
-/

namespace HandPath

open Text

/-- The place of a fault in the text. -/
def placeText : Option Int → Option Int → String
  | none, _ => ""
  | some juggler, none => "（第 " ++ intText juggler ++ " 段）"
  | some juggler, some beat =>
    "（第 " ++ intText juggler ++ " 段，第 " ++ intText (beat + 1) ++ " 拍）"

/-- The message for the user. -/
def Fault.message (f : Fault) : String :=
  (Catalogue.template f.violation.kind).expand f.violation.arguments ++ placeText f.juggler f.beat

/-- An integer, or the word for none. -/
def optionalText : Option Int → String
  | some n => intText n
  | none => "None"

/-- The text of a failure; of a fault it is the message for the user. -/
def Failure.message : Failure → String
  | .fault f => f.message
  | .emptyGroup inside juggler beat =>
    "坐标组没有可读取的分量：(" ++ String.ofList inside ++ ") juggler=" ++ optionalText juggler ++
      " beat=" ++ optionalText beat
  | .unreadableNumeral numeral =>
    "could not convert string to float: " ++ quoted (String.ofList numeral)
  | .outOfRange => "index out of range"

/-! ### Messages asked for by key -/

/-- Why there is no message. -/
inductive MessageError where
  | unknownKind (key : String)
  | missingArgument (name : String)
deriving DecidableEq, Repr

def MessageError.message : MessageError → String
  | unknownKind key => quoted key
  | missingArgument name => quoted name

/-- The message for the kind with a key, with arguments given by name; more may be given than the
template asks for. -/
def messageFor (key : String) (arguments : List (String × String)) (juggler beat : Option Int) :
    Except MessageError String :=
  match Kind.ofName? key with
  | none => .error (.unknownKind key)
  | some k =>
    match (Catalogue.template k).missing? arguments with
    | some name => .error (.missingArgument name)
    | none => .ok ((Catalogue.template k).expand arguments ++ placeText juggler beat)

/-- A violation gives every argument that the template of its kind asks for. -/
theorem missing?_template (v : Violation) :
    (Catalogue.template v.kind).missing? v.arguments = none := by
  cases v <;> rfl

/-- The message of a fault is the one asked for by the key of its kind. -/
theorem messageFor_name (f : Fault) :
    messageFor f.violation.kind.name f.violation.arguments f.juggler f.beat = .ok f.message := by
  simp only [messageFor, Kind.ofName?_name, missing?_template]
  rfl

end HandPath
