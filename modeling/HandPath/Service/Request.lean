import HandPath.Service.Field
import HandPath.Service.Integer

/-!
# HandPath.Service.Request — requests and their bodies

A body is read for the route that answers it: a text to compile, or a question for one coordinate of
the pattern of a text.

Finding the route of a target (`Target`) and checking the fields of a body (`readInteger`,
`Complaint`) are the work of the framework around the service; they are described as far as they
bear on an answer.
-/

namespace HandPath.Service

/-- A request whose body, if it has one, is a document. What the framework cannot parse as one is no
request of the service: the framework answers it itself, with a status 400 of its own, and no record
is written. -/
structure Request where
  method : String
  target : String
  body : Option Document

/-- The members of a body, which must be there and be an object. -/
def bodyMembers : Option Document → Except (List FieldError) (List (String × Document))
  | none => .error [⟨.missing, none⟩]
  | some .null => .error [⟨.missing, none⟩]
  | some (.object members) => .ok members
  | some _ => .error [⟨.notObject, none⟩]

/-- The text of a request to compile. -/
def compileBody (body : Option Document) : Except (List FieldError) String := do
  required (← bodyMembers body) readText "notation"

/-- A question for one coordinate. -/
structure CoordinateQuestion where
  text : String
  juggler : Int
  beat : Int
  index : Int
deriving DecidableEq, Repr

/-- The question that a body holds. All of its fields are checked, so that every complaint is told.
-/
def coordinateBody (body : Option Document) : Except (List FieldError) CoordinateQuestion := do
  let members ← bodyMembers body
  let text := (required members readText "notation").map CoordinateQuestion.mk
  let juggler := optional members readInteger "juggler" 1
  let beat := required members readInteger "beat"
  let index := required members readInteger "index"
  both (both (both text juggler) beat) index

end HandPath.Service
