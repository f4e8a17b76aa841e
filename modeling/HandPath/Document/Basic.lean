import HandPath.Binary64.Basic

/-!
# HandPath.Document.Basic — values of messages, answers and tables

A document is null, a truth value, a number, a text, a list of documents, or an object: members with
names, whose order counts where a document is written.
-/

namespace HandPath

/-- A value of a body, a view or a message table. -/
inductive Document where
  | null
  | bool (b : Bool)
  | integer (n : Int)
  | number (v : Binary64)
  | string (s : String)
  | array (items : List Document)
  | object (members : List (String × Document))
deriving Inhabited

namespace Document

/-- A natural number as a document. -/
def natural (n : Nat) : Document := .integer n

/-- An integer, or null. -/
def ofInt? : Option Int → Document
  | some n => .integer n
  | none => .null

end Document

end HandPath
