import HandPath.Service.Complaint

/-!
# HandPath.Service.Field — reading the fields of a request

Every field of a body is read on its own, and all complaints are reported together, in the order of
the fields.
-/

namespace HandPath.Service

/-- A text of at least one character. -/
def readText : Document → Except Complaint String
  | .string s => if s.isEmpty then .error .emptyText else .ok s
  | _ => .error .notText

variable {α : Type} (members : List (String × Document)) (read : Document → Except Complaint α)

/-- The field with a name, which must be there. -/
def required (name : String) : Except (List FieldError) α :=
  match members.lookup name with
  | none => .error [⟨.missing, some name⟩]
  | some d => (read d).mapError fun c => [⟨c, some name⟩]

/-- The field with a name, or the default if it is not there. -/
def optional (name : String) (default : α) : Except (List FieldError) α :=
  match members.lookup name with
  | none => .ok default
  | some d => (read d).mapError fun c => [⟨c, some name⟩]

/-- Applies a function that was read to an argument that was read; the complaints about both are
kept. -/
def both {α β : Type} (f : Except (List FieldError) (α → β)) (a : Except (List FieldError) α) :
    Except (List FieldError) β :=
  match f, a with
  | .ok f, .ok a => .ok (f a)
  | .ok _, .error e => .error e
  | .error e, .ok _ => .error e
  | .error e, .error e' => .error (e ++ e')

end HandPath.Service
