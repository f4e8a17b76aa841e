import HandPath.Notation.Beats
import HandPath.Notation.Segments

/-!
# HandPath.Notation.Compile — from a text to a pattern

A segment is read in three walks over its tokens, each of which can fail: its beats are counted,
laid out, and filled with coordinates. The segments of a text are compiled in order and counted from
one; the first that fails ends the run, which keeps the segments before it (`Run`).
-/

namespace HandPath

namespace Notation

/-- Compiles the text of one segment; the juggler's number only places faults. -/
def compileSegment (juggler : Int) (cs : List Char) : Except Failure Segment := do
  let s := scan cs
  let _ ← period juggler s
  let layouts ← layouts juggler s
  return ⟨← beats juggler s layouts⟩

/-- The segments that compile, up to the first that fails, and its failure. -/
structure Run where
  finished : List Segment
  failure : Option Failure

/-- The run with a segment before it. -/
def Run.cons (s : Segment) (r : Run) : Run := ⟨s :: r.finished, r.failure⟩

/-- Compiles segment texts, the first of them under the number `juggler`. -/
def runFrom : Int → List (List Char) → Run
  | _, [] => ⟨[], none⟩
  | juggler, text :: texts =>
    match compileSegment juggler text with
    | .error f => ⟨[], some f⟩
    | .ok s => (runFrom (juggler + 1) texts).cons s

/-- Compiles a whole text, which must have a segment. -/
def run (cs : List Char) : Run :=
  match segmentTexts cs with
  | [] => ⟨[], some (.mistake .emptyNotation none none)⟩
  | texts => runFrom 1 texts

/-- What comes of a run: its failure, or the pattern of all segments. -/
def Run.result (r : Run) : Except Failure Pattern :=
  match r.failure with
  | some f => .error f
  | none => .ok ⟨r.finished⟩

end Notation

/-- The pattern that a text denotes. -/
def Pattern.ofNotation (text : String) : Except Failure Pattern :=
  (Notation.run text.toList).result

end HandPath
