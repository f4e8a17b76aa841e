import HandPath.Notation.Compile
import Mathlib.Data.List.DropRight
import Mathlib.Tactic.Tauto

/-!
# HandPath.Proofs.Lexing — what a scan reads, said without the scan

`Lexes cs ts rest`: the text `cs` consists of the tokens `ts`, with spaces anywhere before them and
between them, and the text `rest` after them.  `Stuck rest fault`: no token and no space begins
`rest`, either because it is empty or because of `fault`.  A scan finds the one way to part a text
into tokens and a text that is stuck (`scan_eq_iff`), and scans what follows a text without a fault
as it would scan it alone (`scan_append`).

`withoutSpaces` drops the spaces outside groups.  A scan does not see them (`scan_withoutSpaces`),
and what it leaves of a text without a fault is the texts of its tokens (`withoutSpaces_eq_render`).
-/

namespace HandPath.Notation

/-- The group of a token ends at its first closing parenthesis. -/
def Token.Closed : Token → Prop
  | group inside => ')' ∉ inside
  | _ => True

/-- The texts of tokens, one after the other. -/
def render (ts : List Token) : List Char := ts.flatMap Token.chars

@[simp] theorem render_nil : render [] = [] := rfl

@[simp] theorem render_cons (t : Token) (ts : List Token) :
    render (t :: ts) = t.chars ++ render ts := rfl

@[simp] theorem render_append (ts us : List Token) : render (ts ++ us) = render ts ++ render us :=
  List.flatMap_append

/-- The text is that of the tokens, with spaces before and between them, and then the rest. -/
inductive Lexes : List Char → List Token → List Char → Prop
  | done (rest : List Char) : Lexes rest [] rest
  | space {cs ts rest} : Lexes cs ts rest → Lexes (' ' :: cs) ts rest
  | token {t : Token} {cs ts rest} : t.Closed → Lexes cs ts rest →
      Lexes (t.chars ++ cs) (t :: ts) rest

/-- No token and no space begins the text: it is empty, or begins with a fault. -/
inductive Stuck : List Char → Option ScanFault → Prop
  | ended : Stuck [] none
  | openGroup {cs : List Char} : ')' ∉ cs → Stuck ('(' :: cs) (some .openGroup)
  | badCharacter {c : Char} {cs : List Char} : c ∉ [' ', '.', '-', 'T', 't', 'C', 'c', '('] →
      Stuck (c :: cs) (some (.badCharacter c))

/-! ### Every text begins with a space or a token, or is stuck -/

theorem ofChar?_eq_none {c : Char} (h : c ∉ ['.', '-', 'T', 't', 'C', 'c']) :
    Token.ofChar? c = none := by
  simp only [List.mem_cons, List.not_mem_nil, or_false, not_or] at h
  unfold Token.ofChar?
  split <;> simp_all

theorem ofChar?_eq_some {c : Char} (h : c ∈ ['.', '-', 'T', 't', 'C', 'c']) :
    ∃ t, Token.ofChar? c = some t ∧ t.chars = [c] ∧ t.Closed := by
  simp only [List.mem_cons, List.not_mem_nil, or_false] at h
  rcases h with rfl | rfl | rfl | rfl | rfl | rfl <;> exact ⟨_, rfl, rfl, trivial⟩

/-- Induction on a text by what it begins with. -/
theorem text_induction {motive : List Char → Prop}
    (space : ∀ cs, motive cs → motive (' ' :: cs))
    (token : ∀ (t : Token) cs, t.Closed → motive cs → motive (t.chars ++ cs))
    (stuck : ∀ cs fault, Stuck cs fault → motive cs) (cs : List Char) : motive cs := by
  induction hn : cs.length using Nat.strong_induction_on generalizing cs with
  | _ n ih =>
    cases cs with
    | nil => exact stuck _ _ .ended
    | cons c cs =>
      rw [List.length_cons] at hn
      by_cases hspace : c = ' '
      · subst hspace
        exact space cs (ih _ (by omega) cs rfl)
      by_cases hopen : c = '('
      · subst hopen
        by_cases hclose : ')' ∈ cs
        · obtain ⟨inside, cs', rfl, hinside⟩ := List.eq_append_cons_of_mem hclose
          have hlen : (inside ++ ')' :: cs').length = inside.length + (cs'.length + 1) := by simp
          have h := token (.group inside) cs' hinside (ih _ (by omega) cs' rfl)
          simpa [Token.chars] using h
        · exact stuck _ _ (.openGroup hclose)
      by_cases htoken : c ∈ ['.', '-', 'T', 't', 'C', 'c']
      · obtain ⟨t, -, hchars, hclosed⟩ := ofChar?_eq_some htoken
        have h := token t cs hclosed (ih _ (by omega) cs rfl)
        rwa [hchars] at h
      · refine stuck _ _ (.badCharacter ?_)
        simp only [List.mem_cons, List.not_mem_nil, or_false, not_or] at htoken ⊢
        tauto

/-! ### The scan -/

theorem scan_chars_append {t : Token} (h : t.Closed) (cs : List Char) :
    scan (t.chars ++ cs) = (scan cs).cons t := by
  cases t with
  | beatEnd => exact scan_token rfl cs
  | blank => exact scan_token rfl cs
  | group inside => simpa [Token.chars] using scan_group h cs
  | throwMark small => cases small <;> exact scan_token rfl cs
  | catchMark small => cases small <;> exact scan_token rfl cs

theorem scanFrom_open {cs : List Char} (h : ')' ∉ cs) (inside : List Char) :
    scanFrom (some inside) cs = ⟨[], some .openGroup⟩ := by
  induction cs generalizing inside with
  | nil => rfl
  | cons c cs ih =>
    rw [List.mem_cons, not_or] at h
    rw [scanFrom, if_neg (Ne.symm h.1), ih h.2]

theorem scan_stuck {cs : List Char} {fault : Option ScanFault} (h : Stuck cs fault) :
    scan cs = ⟨[], fault⟩ := by
  cases h with
  | ended => rfl
  | openGroup h => exact scanFrom_open h []
  | @badCharacter c cs h =>
    have hspace : c ≠ ' ' := fun e => h (by simp [e])
    have hopen : c ≠ '(' := fun e => h (by simp [e])
    have hnone : Token.ofChar? c = none :=
      ofChar?_eq_none fun hc => h (by simp only [List.mem_cons] at hc ⊢; tauto)
    simp [scan, scanFrom, hspace, hopen, hnone]

theorem scan_of_lexes {cs rest : List Char} {ts : List Token} (h : Lexes cs ts rest) :
    scan cs = ⟨ts ++ (scan rest).tokens, (scan rest).fault⟩ := by
  induction h with
  | done rest => rfl
  | space _ ih => rw [scan_space, ih]
  | token ht _ ih => rw [scan_chars_append ht, ih]; rfl

theorem exists_lexes (cs : List Char) :
    ∃ rest, Lexes cs (scan cs).tokens rest ∧ Stuck rest (scan cs).fault := by
  induction cs using text_induction with
  | space cs ih =>
    obtain ⟨rest, h1, h2⟩ := ih
    rw [scan_space]
    exact ⟨rest, .space h1, h2⟩
  | token t cs ht ih =>
    obtain ⟨rest, h1, h2⟩ := ih
    rw [scan_chars_append ht]
    exact ⟨rest, .token ht h1, h2⟩
  | stuck cs fault h =>
    rw [scan_stuck h]
    exact ⟨cs, .done cs, h⟩

/-- A scan parts a text into its tokens and a text that is stuck, in the only way there is. -/
theorem scan_eq_iff {cs : List Char} {ts : List Token} {fault : Option ScanFault} :
    scan cs = ⟨ts, fault⟩ ↔ ∃ rest, Lexes cs ts rest ∧ Stuck rest fault := by
  refine ⟨?_, ?_⟩
  · intro h
    have h' := exists_lexes cs
    rwa [h] at h'
  · rintro ⟨rest, h1, h2⟩
    rw [scan_of_lexes h1, scan_stuck h2, List.append_nil]

theorem closed_of_lexes {cs rest : List Char} {ts : List Token} (h : Lexes cs ts rest) :
    ∀ t ∈ ts, t.Closed := by
  induction h with
  | done rest => simp
  | space _ ih => exact ih
  | token ht _ ih => exact List.forall_mem_cons.2 ⟨ht, ih⟩

theorem lexes_render {ts : List Token} (h : ∀ t ∈ ts, t.Closed) (rest : List Char) :
    Lexes (render ts ++ rest) ts rest := by
  induction ts with
  | nil => exact .done rest
  | cons t ts ih =>
    rw [render_cons, List.append_assoc]
    exact .token (h t (List.mem_cons_self ..)) (ih fun u hu => h u (List.mem_cons_of_mem _ hu))

/-- Scanning the texts of tokens gives the tokens. -/
theorem scan_render {ts : List Token} (h : ∀ t ∈ ts, t.Closed) : scan (render ts) = ⟨ts, none⟩ :=
  scan_eq_iff.2 ⟨[], by simpa using lexes_render h [], .ended⟩

/-! ### One text after another -/

theorem Lexes.trans {cs mid rest : List Char} {ts us : List Token} (h : Lexes cs ts mid)
    (h' : Lexes mid us rest) : Lexes cs (ts ++ us) rest := by
  induction h with
  | done => exact h'
  | space _ ih => exact .space (ih h')
  | token ht _ ih => exact .token ht (ih h')

theorem Lexes.append {cs rest : List Char} {ts : List Token} (h : Lexes cs ts rest)
    (ds : List Char) : Lexes (cs ++ ds) ts (rest ++ ds) := by
  induction h with
  | done rest => exact .done _
  | space _ ih => exact .space ih
  | token ht _ ih =>
    rw [List.append_assoc]
    exact .token ht ih

/-- A text that scans to its end, of all of whose tokens the text is made up. -/
theorem lexes_of_fault_eq_none {cs : List Char} (h : (scan cs).fault = none) :
    Lexes cs (scan cs).tokens [] := by
  obtain ⟨rest, hlex, hstuck⟩ := exists_lexes cs
  rw [h] at hstuck
  cases hstuck
  exact hlex

/-- What follows a text that scans to its end is scanned as it is alone. -/
theorem scan_append {cs : List Char} (h : (scan cs).fault = none) (ds : List Char) :
    scan (cs ++ ds) = ⟨(scan cs).tokens ++ (scan ds).tokens, (scan ds).fault⟩ :=
  scan_of_lexes ((lexes_of_fault_eq_none h).append ds)

/-! ### Spaces -/

/-- The text without its spaces outside groups; the flag tells whether it starts inside one. -/
def dropSpaces : Bool → List Char → List Char
  | _, [] => []
  | false, c :: cs => if c = ' ' then dropSpaces false cs else c :: dropSpaces (c = '(') cs
  | true, c :: cs => c :: dropSpaces (c ≠ ')') cs

/-- The text without its spaces outside groups. -/
def withoutSpaces (cs : List Char) : List Char := dropSpaces false cs

theorem dropSpaces_inside {inside : List Char} (h : ')' ∉ inside) (cs : List Char) :
    dropSpaces true (inside ++ ')' :: cs) = inside ++ ')' :: withoutSpaces cs := by
  induction inside with
  | nil => simp [dropSpaces, withoutSpaces]
  | cons c inside ih =>
    rw [List.mem_cons, not_or] at h
    simp [dropSpaces, Ne.symm h.1, ih h.2]

theorem dropSpaces_open {cs : List Char} (h : ')' ∉ cs) : dropSpaces true cs = cs := by
  induction cs with
  | nil => rfl
  | cons c cs ih =>
    rw [List.mem_cons, not_or] at h
    simp [dropSpaces, Ne.symm h.1, ih h.2]

theorem withoutSpaces_space (cs : List Char) : withoutSpaces (' ' :: cs) = withoutSpaces cs := rfl

theorem withoutSpaces_chars_append {t : Token} (h : t.Closed) (cs : List Char) :
    withoutSpaces (t.chars ++ cs) = t.chars ++ withoutSpaces cs := by
  cases t with
  | beatEnd => rfl
  | blank => rfl
  | group inside =>
    simpa [Token.chars, withoutSpaces, dropSpaces] using dropSpaces_inside h cs
  | throwMark small => cases small <;> rfl
  | catchMark small => cases small <;> rfl

/-- What is stuck stays stuck on the same fault when the spaces after it are dropped. -/
theorem stuck_withoutSpaces {cs : List Char} {fault : Option ScanFault} (h : Stuck cs fault) :
    Stuck (withoutSpaces cs) fault := by
  cases h with
  | ended => exact .ended
  | @openGroup cs h =>
    show Stuck ('(' :: dropSpaces true cs) _
    rw [dropSpaces_open h]
    exact .openGroup h
  | @badCharacter c cs h =>
    have hspace : c ≠ ' ' := fun e => h (by simp [e])
    rw [withoutSpaces, dropSpaces, if_neg hspace]
    exact .badCharacter h

/-- The spaces outside groups make no difference to a scan. -/
theorem scan_withoutSpaces (cs : List Char) : scan (withoutSpaces cs) = scan cs := by
  induction cs using text_induction with
  | space cs ih => rw [withoutSpaces_space, scan_space, ih]
  | token t cs ht ih =>
    rw [withoutSpaces_chars_append ht, scan_chars_append ht, scan_chars_append ht, ih]
  | stuck cs fault h => rw [scan_stuck h, scan_stuck (stuck_withoutSpaces h)]

theorem withoutSpaces_of_lexes {cs rest : List Char} {ts : List Token} (h : Lexes cs ts rest) :
    withoutSpaces cs = render ts ++ withoutSpaces rest := by
  induction h with
  | done rest => rfl
  | space _ ih => rw [withoutSpaces_space, ih]
  | token ht _ ih => rw [withoutSpaces_chars_append ht, ih, render_cons, List.append_assoc]

/-- Without spaces, a text that scans to its end is the texts of its tokens. -/
theorem withoutSpaces_eq_render {cs : List Char} {ts : List Token} (h : scan cs = ⟨ts, none⟩) :
    withoutSpaces cs = render ts ∧ ∀ t ∈ ts, t.Closed := by
  obtain ⟨rest, h1, h2⟩ := scan_eq_iff.1 h
  cases h2
  exact ⟨by simpa [withoutSpaces, dropSpaces] using withoutSpaces_of_lexes h1, closed_of_lexes h1⟩

theorem scan_of_withoutSpaces_eq {cs : List Char} {ts : List Token}
    (h : withoutSpaces cs = render ts) (hts : ∀ t ∈ ts, t.Closed) : scan cs = ⟨ts, none⟩ := by
  rw [← scan_withoutSpaces, h, scan_render hts]

theorem withoutSpaces_of_not_mem {cs : List Char} (h : ' ' ∉ cs) : withoutSpaces cs = cs := by
  -- For both flags, as it may change at every character.
  have key : ∀ b, dropSpaces b cs = cs := by
    induction cs with
    | nil => intro b; cases b <;> rfl
    | cons c cs ih =>
      rw [List.mem_cons, not_or] at h
      intro b
      cases b
      · rw [dropSpaces, if_neg (Ne.symm h.1), ih h.2]
      · rw [dropSpaces, ih h.2]
  exact key false

end HandPath.Notation
