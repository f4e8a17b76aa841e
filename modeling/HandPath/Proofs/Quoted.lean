import HandPath.Text.Digit
import HandPath.Text.Quoted
import Mathlib.Algebra.Group.Nat.Defs
import Mathlib.Data.List.Basic
import Mathlib.Tactic.SplitIfs

/-!
# HandPath.Proofs.Quoted — quoted texts are printable and tell texts apart

`unescape` reads the first character back from an escaped text: after a backslash a letter says how
many hexadecimal digits follow, or which character it stands for, and any other character stands for
itself (`unescape_escape_append`).  No escape begins with the quote in use, so a quoted text can be
told from what follows it (`quotedChars_append_inj`), and all its characters are printable
(`printable_quotedChars`).
-/

namespace HandPath.Text

/-! ### Hexadecimal digits -/

/-- The natural number that hexadecimal digits denote, the highest digit first. -/
def ofHexDigits (cs : List Char) : ℕ :=
  (cs.filterMap hexDigitValue?).foldl (fun n d => 16 * n + d) 0

theorem ofHexDigits_concat (cs : List Char) {c : Char} {d : ℕ} (h : hexDigitValue? c = some d) :
    ofHexDigits (cs ++ [c]) = 16 * ofHexDigits cs + d := by
  rw [ofHexDigits, List.filterMap_append, List.filterMap_cons_some h, List.filterMap_nil,
    List.foldl_concat, ofHexDigits]

/-- The last digits of a number denote it up to a power of sixteen. -/
theorem ofHexDigits_hexDigits (width n : ℕ) :
    ofHexDigits (hexDigits width n) = n % 16 ^ width := by
  have hvalue : ∀ d < 16, hexDigitValue? (Nat.digitChar d) = some d := by decide
  induction width generalizing n with
  | zero => exact (Nat.mod_one n).symm
  | succ width ih =>
    rw [hexDigits, ofHexDigits_concat _ (hvalue _ (Nat.mod_lt n (by decide))), ih, Nat.pow_succ',
      Nat.mod_mul, Nat.add_comm]

/-! ### Reading one character back -/

/-- The quotes that a text can stand between. -/
def IsQuote (q : Char) : Prop := q = apostrophe ∨ q = doubleQuote

theorem isQuote_quoteFor (cs : List Char) : IsQuote (quoteFor cs) := by
  unfold quoteFor
  split_ifs
  · exact .inr rfl
  · exact .inl rfl

/-- The character whose code the first `width` characters denote, and the rest. -/
def hexEscape (width : ℕ) (cs : List Char) : Char × List Char :=
  (Char.ofNat (ofHexDigits (cs.take width)), cs.drop width)

/-- The character that a backslash before the text stands for, and the rest of the text. -/
def afterBackslash : List Char → Option (Char × List Char)
  | [] => none
  | 'n' :: rest => some ('\n', rest)
  | 'r' :: rest => some ('\r', rest)
  | 't' :: rest => some ('\t', rest)
  | 'x' :: rest => some (hexEscape 2 rest)
  | 'u' :: rest => some (hexEscape 4 rest)
  | 'U' :: rest => some (hexEscape 8 rest)
  | c :: rest => some (c, rest)

/-- The first character of an escaped text, and the rest of the text. -/
def unescape : List Char → Option (Char × List Char)
  | [] => none
  | c :: cs => if c = backslash then afterBackslash cs else some (c, cs)

theorem hexEscape_hexDigits_append (width : ℕ) {c : Char} (h : c.toNat < 16 ^ width)
    (rest : List Char) : hexEscape width (hexDigits width c.toNat ++ rest) = (c, rest) := by
  have hlength : (hexDigits width c.toNat).length = width := length_hexDigits width c.toNat
  unfold hexEscape
  rw [List.take_left' hlength, List.drop_left' hlength, ofHexDigits_hexDigits, Nat.mod_eq_of_lt h,
    Char.ofNat_toNat]

variable {q : Char}

/-- What a character is written as is read back as the character, whatever follows. -/
theorem unescape_escape_append (hq : IsQuote q) (c : Char) (rest : List Char) :
    unescape (escape q c ++ rest) = some (c, rest) := by
  unfold escape
  split_ifs with hmark hn hr ht hp hx hu
  · rcases hmark with rfl | rfl
    · rcases hq with rfl | rfl
      · rfl
      · rfl
    · rfl
  · subst hn
    rfl
  · subst hr
    rfl
  · subst ht
    rfl
  · rw [List.singleton_append, unescape, if_neg (not_or.1 hmark).2]
  · exact congrArg some (hexEscape_hexDigits_append 2 hx rest)
  · exact congrArg some (hexEscape_hexDigits_append 4 hu rest)
  · have hcode : c.toNat < 16 ^ 8 := c.val.toNat_lt
    exact congrArg some (hexEscape_hexDigits_append 8 hcode rest)

/-- No character is written as something that begins with the quote. -/
theorem escape_append_ne (hq : IsQuote q) (c : Char) (r s : List Char) :
    escape q c ++ r ≠ q :: s := by
  intro h
  have hread := unescape_escape_append hq c r
  rw [h] at hread
  have hself : unescape (q :: s) = some (q, s) := by
    rcases hq with rfl | rfl
    · rfl
    · rfl
  -- so the character is the quote itself, but that is written after a backslash
  obtain ⟨rfl, rfl⟩ := Prod.mk.inj (Option.some.inj (hself.symm.trans hread))
  rw [escape, if_pos (.inl rfl)] at h
  rcases hq with rfl | rfl
  · exact absurd (List.cons.inj h).1 (by decide)
  · exact absurd (List.cons.inj h).1 (by decide)

theorem flatMap_escape_append_inj (hq : IsQuote q) {cs ds r s : List Char}
    (h : cs.flatMap (escape q) ++ q :: r = ds.flatMap (escape q) ++ q :: s) : cs = ds ∧ r = s := by
  -- Reading back peels off one character on both sides, until the quote ends them.
  induction cs generalizing ds with
  | nil =>
    cases ds with
    | nil => exact ⟨rfl, (List.cons.inj h).2⟩
    | cons d ds =>
      rw [List.flatMap_cons, List.append_assoc] at h
      exact absurd h.symm (escape_append_ne hq d _ r)
  | cons c cs ih =>
    cases ds with
    | nil =>
      rw [List.flatMap_cons, List.append_assoc] at h
      exact absurd h (escape_append_ne hq c _ s)
    | cons d ds =>
      rw [List.flatMap_cons, List.flatMap_cons, List.append_assoc, List.append_assoc] at h
      have hread := congrArg unescape h
      rw [unescape_escape_append hq, unescape_escape_append hq] at hread
      obtain ⟨rfl, hrest⟩ := Prod.mk.inj (Option.some.inj hread)
      obtain ⟨rfl, rfl⟩ := ih hrest
      exact ⟨rfl, rfl⟩

/-- A quoted text with what follows it determines the text, and what follows it. -/
theorem quotedChars_append_inj {cs ds r s : List Char}
    (h : quotedChars cs ++ r = quotedChars ds ++ s) : cs = ds ∧ r = s := by
  have hshape : ∀ es t : List Char, quotedChars es ++ t =
      quoteFor es :: (es.flatMap (escape (quoteFor es)) ++ quoteFor es :: t) := by
    intro es t
    simp [quotedChars]
  rw [hshape, hshape] at h
  obtain ⟨hquote, h⟩ := List.cons.inj h
  rw [hquote] at h
  exact flatMap_escape_append_inj (isQuote_quoteFor ds) h

/-! ### Printable texts -/

/-- A text of printable characters. -/
def Printable (cs : List Char) : Prop := ∀ c ∈ cs, isPrintable c = true

instance (cs : List Char) : Decidable (Printable cs) := List.decidableBAll _ cs

theorem printable_append {cs ds : List Char} :
    Printable (cs ++ ds) ↔ Printable cs ∧ Printable ds := List.forall_mem_append

theorem printable_cons {c : Char} {cs : List Char} :
    Printable (c :: cs) ↔ isPrintable c = true ∧ Printable cs := List.forall_mem_cons

theorem printable_hexDigits (width n : ℕ) : Printable (hexDigits width n) := by
  have hdigit : ∀ d < 16, isPrintable (Nat.digitChar d) = true := by decide
  induction width generalizing n with
  | zero => simp [hexDigits, Printable]
  | succ width ih =>
    refine printable_append.2 ⟨ih (n / 16), fun c hc => ?_⟩
    rw [List.mem_singleton.1 hc]
    exact hdigit _ (Nat.mod_lt n (by decide))

theorem isPrintable_of_isQuote (hq : IsQuote q) : isPrintable q = true := by
  rcases hq with rfl | rfl
  · decide
  · decide

theorem printable_escape (hq : IsQuote q) (c : Char) : Printable (escape q c) := by
  have hbackslash : isPrintable backslash = true := by decide
  have hhex : ∀ d, isPrintable d = true →
      ∀ width, Printable (backslash :: d :: hexDigits width c.toNat) := fun d hd width =>
    printable_cons.2 ⟨hbackslash, printable_cons.2 ⟨hd, printable_hexDigits width _⟩⟩
  unfold escape
  split_ifs with hmark hn hr ht hp
  · have hc : isPrintable c = true := by
      rcases hmark with rfl | rfl
      · exact isPrintable_of_isQuote hq
      · exact hbackslash
    simp [Printable, hbackslash, hc]
  · decide
  · decide
  · decide
  · simpa [Printable] using hp
  · exact hhex 'x' (by decide) 2
  · exact hhex 'u' (by decide) 4
  · exact hhex 'U' (by decide) 8

/-- A quoted text holds printable characters only. -/
theorem printable_quotedChars (cs : List Char) : Printable (quotedChars cs) := by
  have hq := isQuote_quoteFor cs
  have hquote := isPrintable_of_isQuote hq
  refine printable_append.2 ⟨printable_cons.2 ⟨hquote, fun c hc => ?_⟩, fun c hc => ?_⟩
  · obtain ⟨d, -, hd⟩ := List.mem_flatMap.1 hc
    exact printable_escape hq d c hd
  · rwa [List.mem_singleton.1 hc]

end HandPath.Text
