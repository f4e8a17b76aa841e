import HandPath.Document.Basic

/-!
# HandPath.Service.Complaint — what may be wrong with a body

A complaint is about one field or, if none is named, about the body as a whole.
-/

namespace HandPath.Service

/-- What is wrong with a field or with the body as a whole. -/
inductive Complaint where
  | missing
  | notObject
  | notText
  | emptyText
  | notInteger
  | unreadableInteger
  | oversizedInteger
  | fraction
  | notFinite
deriving DecidableEq, Repr

namespace Complaint

/-- The key of the complaint in an answer. -/
def code : Complaint → String
  | missing => "missing"
  | notObject => "model_attributes_type"
  | notText => "string_type"
  | emptyText => "string_too_short"
  | notInteger => "int_type"
  | unreadableInteger => "int_parsing"
  | oversizedInteger => "int_parsing_size"
  | fraction => "int_from_float"
  | notFinite => "finite_number"

def message : Complaint → String
  | missing => "Field required"
  | notObject => "Input should be a valid dictionary or object to extract fields from"
  | notText => "Input should be a valid string"
  | emptyText => "String should have at least 1 character"
  | notInteger => "Input should be a valid integer"
  | unreadableInteger => "Input should be a valid integer, unable to parse string as an integer"
  | oversizedInteger => "Unable to parse input string as an integer, exceeded maximum size"
  | fraction => "Input should be a valid integer, got a number with a fractional part"
  | notFinite => "Input should be a finite number"

end Complaint

/-- A complaint about a field, or about the body if no field is named. -/
structure FieldError where
  complaint : Complaint
  field : Option String
deriving DecidableEq, Repr

/-- A complaint with the place in the body that it is about. -/
def FieldError.view (e : FieldError) : Document :=
  .object [("type", .string e.complaint.code),
    ("loc", .array (.string "body" :: (e.field.toList.map Document.string))),
    ("msg", .string e.complaint.message)]

end HandPath.Service
