import HandPath.Notation.Fault

/-!
# HandPath.Notation.Token — the tokens of a segment text

Outside groups a space counts for nothing and every other character is a token of its own; a group
reaches from its parenthesis to the first closing one and is one token. A scan gives the tokens up
to the end of the text or to the first fault: a character that is no token, or a group that is not
closed.
-/

namespace HandPath.Notation

/-- A token, with everything of its text that can be different. -/
inductive Token where
  | beatEnd
  | blank
  | group (inside : List Char)
  | throwMark (small : Bool)
  | catchMark (small : Bool)
deriving DecidableEq, Repr

namespace Token

/-- The token that one character is. -/
def ofChar? : Char → Option Token
  | '.' => some beatEnd
  | '-' => some blank
  | 'T' => some (throwMark false)
  | 't' => some (throwMark true)
  | 'C' => some (catchMark false)
  | 'c' => some (catchMark true)
  | _ => none

/-- The text of the token. -/
def chars : Token → List Char
  | beatEnd => ['.']
  | blank => ['-']
  | group inside => '(' :: inside ++ [')']
  | throwMark small => [if small then 't' else 'T']
  | catchMark small => [if small then 'c' else 'C']

end Token

/-- Why a scan ended before the text did. -/
inductive ScanFault where
  | badCharacter (c : Char)
  | openGroup
deriving DecidableEq, Repr

/-- The mistake that a stopped scan is reported as. -/
def ScanFault.violation : ScanFault → Violation
  | badCharacter c => .badCharacter c
  | openGroup => .noParen

/-- The tokens up to the end of the text or to the fault. -/
structure Scan where
  tokens : List Token
  fault : Option ScanFault
deriving DecidableEq, Repr

def Scan.cons (t : Token) (s : Scan) : Scan := ⟨t :: s.tokens, s.fault⟩

/-- Scans the text after the parenthesis of a group whose characters so far are `inside`, the latest
first, or outside of groups. -/
def scanFrom : Option (List Char) → List Char → Scan
  | none, [] => ⟨[], none⟩
  | some _, [] => ⟨[], some .openGroup⟩
  | some inside, c :: cs =>
    if c = ')' then (scanFrom none cs).cons (.group inside.reverse)
    else scanFrom (some (c :: inside)) cs
  | none, c :: cs =>
    if c = ' ' then scanFrom none cs
    else if c = '(' then scanFrom (some []) cs
    else match Token.ofChar? c with
      | some t => (scanFrom none cs).cons t
      | none => ⟨[], some (.badCharacter c)⟩

/-- The scan of a segment text. -/
def scan (cs : List Char) : Scan := scanFrom none cs

@[simp] theorem scan_nil : scan [] = ⟨[], none⟩ := rfl

@[simp] theorem scan_space (cs : List Char) : scan (' ' :: cs) = scan cs := rfl

theorem scan_token {c : Char} {t : Token} (h : Token.ofChar? c = some t) (cs : List Char) :
    scan (c :: cs) = (scan cs).cons t := by
  have h1 : c ≠ ' ' := by rintro rfl; cases h
  have h2 : c ≠ '(' := by rintro rfl; cases h
  simp [scan, scanFrom, h1, h2, h]

theorem scanFrom_group {inside : List Char} (h : ')' ∉ inside) (before cs : List Char) :
    scanFrom (some before) (inside ++ ')' :: cs) =
      (scan cs).cons (.group (before.reverse ++ inside)) := by
  induction inside generalizing before with
  | nil => simp [scanFrom, scan]
  | cons c inside ih =>
    rw [List.mem_cons, not_or] at h
    simp [scanFrom, Ne.symm h.1, ih h.2]

theorem scan_group {inside : List Char} (h : ')' ∉ inside) (cs : List Char) :
    scan ('(' :: inside ++ ')' :: cs) = (scan cs).cons (.group inside) := by
  simpa [scan, scanFrom] using scanFrom_group h [] cs

end HandPath.Notation
