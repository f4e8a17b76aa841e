import HandPath.Document.Indented
import HandPath.Message.Basic
import HandPath.Notation.Compile
import HandPath.Pattern.View

/-!
# HandPath.Command — the structure of a text, printed

The first argument is the text to compile; without arguments an example is. The view of its pattern
is printed with status 0, or the fault with status 1.
-/

namespace HandPath.Command

/-- The example that is compiled if no text is given. -/
def sampleText : String := "<T(10,0,5)-C(32.5).T(-10,0,5)-C(-32.5).|T(0,0,0)C(20,10).>"

/-- What is printed, and the exit status. -/
structure Output where
  status : UInt32
  text : String
deriving DecidableEq, Repr

/-- Other failures than faults are left to the caller. -/
def run (arguments : List String) : Except Failure Output :=
  match Pattern.ofNotation (arguments.headD sampleText) with
  | .ok p => .ok ⟨0, p.view.indented ++ "\n"⟩
  | .error (.fault f) =>
    .ok ⟨1, "[FAIL] kind=" ++ f.violation.kind.name ++ " " ++ f.message ++ "\n"⟩
  | .error f => .error f

end HandPath.Command
