import HandPath.Proofs.Lexing

/-!
# HandPath.Proofs.Parting — the one way to part a text where its tokens end

`Parted cs ts rest`: a first part of `cs` is the texts of the tokens `ts` once its spaces outside
groups are dropped, and `rest` is what follows it after any number of further spaces.  This is what
`Lexes` builds up token by token (`lexes_iff_parted`), and it fixes the rest as soon as this is
stuck (`Lexes.rest_unique`): each first token can be taken off in one way only
(`Lexes.of_chars_append`).

Main statement (`scan_outcome`): a text is parted before something that is stuck in exactly one way,
which the scan finds, and the way a walk over its tokens ends says how the rest begins.
-/

namespace HandPath.Notation

/-- A first part of the text is that of the tokens, spaces outside groups apart; after it stand
spaces, and then the rest. -/
structure Parted (cs : List Char) (ts : List Token) (rest : List Char) : Prop where
  closed : ∀ t ∈ ts, t.Closed
  read : ∃ before spaces, cs = before ++ (spaces ++ rest) ∧ withoutSpaces before = render ts ∧
    ∀ c ∈ spaces, c = ' '

/-- How a walk over the tokens ends that finds nothing wrong with them. -/
def Scan.ending (s : Scan) (juggler : Int) : Except Failure Unit := s.finish juggler (.ok ())

variable {cs ds rest rest' : List Char} {t u : Token} {ts : List Token}
  {fault fault' : Option ScanFault} {s : Scan} {juggler : Int}

/-! ### Parting a text and lexing it -/

theorem lexes_spaces {spaces : List Char} (h : ∀ c ∈ spaces, c = ' ') (rest : List Char) :
    Lexes (spaces ++ rest) [] rest := by
  induction spaces with
  | nil => exact .done rest
  | cons c spaces ih =>
    obtain ⟨rfl, hspaces⟩ := List.forall_mem_cons.1 h
    exact .space (ih hspaces)

theorem Parted.of_lexes (h : Lexes cs ts rest) : Parted cs ts rest := by
  refine ⟨closed_of_lexes h, ?_⟩
  induction h with
  | done rest => exact ⟨[], [], rfl, rfl, by simp⟩
  | space _ ih =>
    obtain ⟨before, spaces, rfl, hread, hspaces⟩ := ih
    exact ⟨' ' :: before, spaces, rfl, hread, hspaces⟩
  | @token t cs ts rest ht _ ih =>
    obtain ⟨before, spaces, rfl, hread, hspaces⟩ := ih
    refine ⟨t.chars ++ before, spaces, by rw [List.append_assoc], ?_, hspaces⟩
    rw [withoutSpaces_chars_append ht, hread, render_cons]

theorem Parted.lexes (h : Parted cs ts rest) : Lexes cs ts rest := by
  obtain ⟨hclosed, before, spaces, rfl, hread, hspaces⟩ := h
  have hscan : scan before = ⟨ts, none⟩ := scan_of_withoutSpaces_eq hread hclosed
  have hbefore : Lexes before (scan before).tokens [] := lexes_of_fault_eq_none (by rw [hscan])
  rw [hscan] at hbefore
  have hlex := (hbefore.append (spaces ++ rest)).trans (lexes_spaces hspaces rest)
  rwa [List.append_nil] at hlex

/-- A text is lexed up to a rest exactly if it is parted there. -/
theorem lexes_iff_parted : Lexes cs ts rest ↔ Parted cs ts rest :=
  ⟨.of_lexes, fun h => h.lexes⟩

/-! ### The rest -/

theorem Token.chars_append_ne_space (t : Token) : t.chars ++ cs ≠ ' ' :: ds := by
  cases t with
  | beatEnd => simp [Token.chars]
  | blank => simp [Token.chars]
  | group inside => simp [Token.chars]
  | throwMark small => cases small <;> simp [Token.chars]
  | catchMark small => cases small <;> simp [Token.chars]

/-- The first token of a text can be read from it, and so can what follows. -/
theorem Token.chars_append_inj (ht : t.Closed) (hu : u.Closed)
    (h : t.chars ++ cs = u.chars ++ ds) : t = u ∧ cs = ds := by
  have hscan : (scan cs).cons t = (scan ds).cons u := by
    rw [← scan_chars_append ht, h, scan_chars_append hu]
  obtain rfl : t = u := (List.cons.inj (Scan.mk.inj hscan).1).1
  exact ⟨rfl, List.append_cancel_left h⟩

theorem Lexes.of_space (h : Lexes (' ' :: cs) ts rest) :
    rest = ' ' :: cs ∨ Lexes cs ts rest := by
  generalize htext : ' ' :: cs = text at h
  cases h with
  | done => exact .inl rfl
  | space h =>
    obtain rfl := (List.cons.inj htext).2
    exact .inr h
  | @token u ds => exact absurd htext.symm u.chars_append_ne_space

theorem Lexes.of_chars_append (ht : t.Closed) (h : Lexes (t.chars ++ cs) (t :: ts) rest) :
    Lexes cs ts rest := by
  generalize htext : t.chars ++ cs = text at h
  generalize htokens : t :: ts = us at h
  cases h with
  | done => nomatch htokens
  | space => exact absurd htext t.chars_append_ne_space
  | token hu h =>
    obtain ⟨rfl, rfl⟩ := Token.chars_append_inj ht hu htext
    obtain rfl := (List.cons.inj htokens).2
    exact h

theorem not_stuck_space : ¬ Stuck (' ' :: cs) fault := by
  intro h
  cases h with
  | badCharacter h => exact h (by decide)

/-- What is left after the tokens is the same however the text is parted, if no space begins it. -/
theorem Lexes.rest_unique (h : Lexes cs ts rest) (h' : Lexes cs ts rest') (hs : Stuck rest fault)
    (hs' : Stuck rest' fault') : rest = rest' := by
  -- `h'` follows `h` step by step: it can stop only where the text is stuck, so before no space.
  induction h with
  | done rest =>
    cases h' with
    | done => rfl
    | space => exact absurd hs not_stuck_space
  | space _ ih =>
    rcases h'.of_space with rfl | h'
    · exact absurd hs' not_stuck_space
    · exact ih h' hs
  | token ht _ ih => exact ih (h'.of_chars_append ht) hs

/-! ### How the rest begins -/

theorem Stuck.ending_eq_ok_iff (h : Stuck rest s.fault) :
    s.ending juggler = .ok () ↔ rest = [] := by
  obtain ⟨ts, fault⟩ := s
  cases h with
  | ended => exact iff_of_true rfl rfl
  | openGroup => simp [Scan.ending, Scan.finish]
  | badCharacter => simp [Scan.ending, Scan.finish]

theorem Stuck.ending_eq_noParen_iff (h : Stuck rest s.fault) :
    s.ending juggler = .error (.mistake .noParen juggler none) ↔
      ∃ inside, rest = '(' :: inside ∧ ')' ∉ inside := by
  obtain ⟨ts, fault⟩ := s
  cases h with
  | ended => simp [Scan.ending, Scan.finish]
  | @openGroup inside hinside => exact iff_of_true rfl ⟨inside, rfl, hinside⟩
  | @badCharacter c cs hc =>
    have hopen : c ≠ '(' := fun e => hc (by simp [e])
    simp [Scan.ending, Scan.finish, ScanFault.violation, Failure.mistake, hopen]

theorem Stuck.ending_eq_badCharacter_iff (h : Stuck rest s.fault) (c : Char) :
    s.ending juggler = .error (.mistake (.badCharacter c) juggler none) ↔
      c ∉ [' ', '.', '-', 'T', 't', 'C', 'c', '('] ∧ ∃ after, rest = c :: after := by
  obtain ⟨ts, fault⟩ := s
  constructor
  · intro hending
    cases h with
    | ended => nomatch hending
    | openGroup => nomatch hending
    | badCharacter hc =>
      cases hending
      exact ⟨hc, _, rfl⟩
  · rintro ⟨hc, after, rfl⟩
    cases h with
    | openGroup => exact absurd hc (by decide)
    | badCharacter => rfl

/-- **A scan loses nothing and stops at the leftmost fault.**  A text is parted before something
that is stuck in exactly one way: its tokens and its fault are those of the scan, and what is left
is always the same text.  Nothing is left if the scan reaches the end.  It fails with an open group
exactly if what is left is an opening parenthesis without a closing one after it, and with a bad
character exactly if what is left begins with that character, which begins no token and is no space;
this holds under every number of the segment. -/
theorem scan_outcome (cs : List Char) : ∃ rest,
    (∀ ts rest' fault, Parted cs ts rest' ∧ Stuck rest' fault ↔
      ts = (scan cs).tokens ∧ rest' = rest ∧ fault = (scan cs).fault) ∧
    ∀ juggler, ((scan cs).ending juggler = .ok () ↔ rest = []) ∧
      ((scan cs).ending juggler = .error (.mistake .noParen juggler none) ↔
        ∃ inside, rest = '(' :: inside ∧ ')' ∉ inside) ∧
      ∀ c, (scan cs).ending juggler = .error (.mistake (.badCharacter c) juggler none) ↔
        c ∉ [' ', '.', '-', 'T', 't', 'C', 'c', '('] ∧ ∃ after, rest = c :: after := by
  obtain ⟨rest, hlex, hstuck⟩ := exists_lexes cs
  refine ⟨rest, fun ts rest' fault => ⟨?_, ?_⟩, fun juggler => ⟨hstuck.ending_eq_ok_iff,
    hstuck.ending_eq_noParen_iff, hstuck.ending_eq_badCharacter_iff⟩⟩
  · rintro ⟨hparted, hstuck'⟩
    have hlex' := lexes_iff_parted.2 hparted
    have hscan : scan cs = ⟨ts, fault⟩ := scan_eq_iff.2 ⟨rest', hlex', hstuck'⟩
    rw [hscan] at hlex ⊢
    exact ⟨rfl, hlex'.rest_unique hlex hstuck' hstuck, rfl⟩
  · rintro ⟨rfl, rfl, rfl⟩
    exact ⟨lexes_iff_parted.1 hlex, hstuck⟩

/-- A group ends at its first closing parenthesis, whatever stands in it. -/
example : scan "(1) T( (2)x.".toList =
    ⟨[.group ['1'], .throwMark false, .group [' ', '(', '2']], some (.badCharacter 'x')⟩ := rfl

end HandPath.Notation
