import HandPath.Decimal.Numeral
import Mathlib.Data.List.Forall2
import Mathlib.Data.List.TakeWhile
import Mathlib.Tactic.SplitIfs

/-!
# HandPath.Proofs.Numeral — the grammar of numerals

`NumeralText cs d`: the text `cs` is a numeral and denotes the decimal `d`.  The grammar has one
inductive predicate for each part: sign, digits, mantissa, exponent.  Reading a text gives a decimal
exactly if the text is a numeral that denotes it (`ofNumeral?_eq_some_iff`).

The parts of a numeral can be told apart by their first characters: no blank is a digit
(`isDigit_of_isBlank`), and neither signs nor points nor the letters of an exponent are digits or
blanks.
-/

namespace HandPath.Decimal

open Text

/-! ### The grammar -/

/-- Digits of any script, and their values. -/
def DigitText (cs : List Char) (ds : List Nat) : Prop :=
  List.Forall₂ (fun c d => digitValue? c = some d) cs ds

/-- An optional sign; the flag is true for minus. -/
inductive SignText : List Char → Bool → Prop
  | absent : SignText [] false
  | plus : SignText ['+'] false
  | minus : SignText ['-'] true

/-- Digits before and after an optional point; at least one in all, and one before it if there is
no point. -/
inductive MantissaText : List Char → List Nat → List Nat → Prop
  | whole {cs ds} : DigitText cs ds → ds ≠ [] → MantissaText cs ds []
  | point {cs ds cs' ds'} : DigitText cs ds → DigitText cs' ds' → ds ++ ds' ≠ [] →
      MantissaText (cs ++ '.' :: cs') ds ds'

/-- An optional exponent; without one it is zero. -/
inductive ExponentText : List Char → Int → Prop
  | absent : ExponentText [] 0
  | present {e : Char} {sign cs : List Char} {negative : Bool} {ds : List Nat} :
      e = 'e' ∨ e = 'E' → SignText sign negative → DigitText cs ds → ds ≠ [] →
      ExponentText (e :: (sign ++ cs)) (if negative then -(ofDigits ds : Int) else ofDigits ds)

/-- A numeral between blanks. -/
inductive NumeralText : List Char → Decimal → Prop
  | mk {blanks sign mantissa exponent blanks' : List Char} {negative : Bool}
      {whole fraction : List Nat} {k : Int} :
      (∀ c ∈ blanks, isBlank c = true) → SignText sign negative →
      MantissaText mantissa whole fraction → ExponentText exponent k →
      (∀ c ∈ blanks', isBlank c = true) →
      NumeralText (blanks ++ (sign ++ (mantissa ++ (exponent ++ blanks'))))
        ⟨negative, ofDigits (whole ++ fraction), k - fraction.length⟩

/-! ### Characters -/

/-- No digit is blank: the ten digits of a script lie off every range of blanks. -/
theorem isDigit_of_isBlank {c : Char} (h : isBlank c = true) : isDigit c = false := by
  obtain ⟨r, hr, hlo, hhi⟩ := inRanges_iff.1 h
  have hoff : ∀ z ∈ digitZeros, ∀ r ∈ blankRanges, r.2 < z ∨ z + 10 ≤ r.1 := by decide
  rw [isDigit, digitValue?, Option.isSome_map, ← Bool.not_eq_true, List.find?_isSome]
  rintro ⟨z, hz, hzc⟩
  simp only [Bool.and_eq_true, decide_eq_true_eq] at hzc
  have := hoff z hz r hr
  omega

theorem isBlank_of_isDigit {c : Char} (h : isDigit c = true) : isBlank c = false := by
  by_contra hb
  rw [isDigit_of_isBlank (by simpa using hb)] at h
  exact absurd h (by decide)

theorem isDigit_of_digitValue? {c : Char} {d : Nat} (h : digitValue? c = some d) :
    isDigit c = true := by
  rw [isDigit, h]
  rfl

/-- The text does not begin with a character of the class `p`. -/
def NotHead (p : Char → Bool) (cs : List Char) : Prop := ∀ c ∈ cs.head?, p c = false

theorem notHead_nil (p : Char → Bool) : NotHead p [] := by simp [NotHead]

theorem notHead_cons {p : Char → Bool} {c : Char} {cs : List Char} :
    NotHead p (c :: cs) ↔ p c = false := by simp [NotHead]

theorem dropWhile_of_notHead {p : Char → Bool} {cs : List Char} (h : NotHead p cs) :
    cs.dropWhile p = cs := by
  cases cs with
  | nil => rfl
  | cons c cs => rw [List.dropWhile_cons_of_neg (by simp [notHead_cons.1 h])]

theorem takeWhile_of_notHead {p : Char → Bool} {cs : List Char} (h : NotHead p cs) :
    cs.takeWhile p = [] := by
  cases cs with
  | nil => rfl
  | cons c cs => rw [List.takeWhile_cons_of_neg (by simp [notHead_cons.1 h])]

theorem notHead_dropWhile (p : Char → Bool) (cs : List Char) : NotHead p (cs.dropWhile p) := by
  induction cs with
  | nil => exact notHead_nil p
  | cons c cs ih =>
    rw [List.dropWhile_cons]
    split_ifs with h
    · exact ih
    · exact notHead_cons.2 (by simpa using h)

/-- A text that begins with another one, not empty, begins with the character of the latter. -/
theorem NotHead.append {p : Char → Bool} {cs ds : List Char} (hcs : NotHead p cs)
    (hds : cs = [] → NotHead p ds) : NotHead p (cs ++ ds) := by
  cases cs with
  | nil => exact hds rfl
  | cons c cs => exact notHead_cons.2 (notHead_cons.1 hcs)

/-! ### Signs and digits -/

theorem SignText.notHead_isBlank {sign : List Char} {negative : Bool} (h : SignText sign negative) :
    NotHead isBlank sign := by
  cases h
  · exact notHead_nil _
  · exact notHead_cons.2 (by decide)
  · exact notHead_cons.2 (by decide)

/-- The characters that are signs. -/
def isSign (c : Char) : Bool := c = '+' || c = '-'

theorem signOf_append {sign rest : List Char} {negative : Bool} (h : SignText sign negative)
    (hrest : NotHead isSign rest) : signOf (sign ++ rest) = (negative, rest) := by
  cases h with
  | absent =>
    cases rest with
    | nil => rfl
    | cons c cs =>
      have hc := notHead_cons.1 hrest
      simp only [isSign, Bool.or_eq_false_iff, decide_eq_false_iff_not] at hc
      simp only [List.nil_append, signOf]
      split <;> simp_all
  | plus => rfl
  | minus => rfl

theorem exists_signText (cs : List Char) :
    ∃ sign, SignText sign (signOf cs).1 ∧ cs = sign ++ (signOf cs).2 := by
  unfold signOf
  split
  · exact ⟨['-'], .minus, rfl⟩
  · exact ⟨['+'], .plus, rfl⟩
  · exact ⟨[], .absent, rfl⟩

theorem isSign_of_isDigit {c : Char} (h : isDigit c = true) : isSign c = false := by
  rw [isSign, Bool.or_eq_false_iff, decide_eq_false_iff_not, decide_eq_false_iff_not]
  constructor <;> rintro rfl <;> exact absurd h (by decide)

theorem DigitText.all_isDigit {cs : List Char} {ds : List Nat} (h : DigitText cs ds) :
    ∀ c ∈ cs, isDigit c = true := by
  induction h with
  | nil => simp
  | cons hc _ ih => exact List.forall_mem_cons.2 ⟨isDigit_of_digitValue? hc, ih⟩

theorem DigitText.notHead {cs : List Char} {ds : List Nat} (h : DigitText cs ds)
    {p : Char → Bool} (hp : ∀ c, isDigit c = true → p c = false) : NotHead p cs := fun c hc =>
  hp c (h.all_isDigit c (List.mem_of_mem_head? hc))

theorem DigitText.filterMap {cs : List Char} {ds : List Nat} (h : DigitText cs ds) :
    cs.filterMap digitValue? = ds := by
  induction h with
  | nil => rfl
  | cons hc _ ih => rw [List.filterMap_cons_some hc, ih]

theorem DigitText.eq_nil_iff {cs : List Char} {ds : List Nat} (h : DigitText cs ds) :
    cs = [] ↔ ds = [] := by
  cases h <;> simp

theorem digitRun_append {cs rest : List Char} {ds : List Nat} (h : DigitText cs ds)
    (hrest : NotHead isDigit rest) : digitRun (cs ++ rest) = (ds, rest) := by
  rw [digitRun, List.takeWhile_append_of_pos h.all_isDigit,
    List.dropWhile_append_of_pos h.all_isDigit, takeWhile_of_notHead hrest,
    dropWhile_of_notHead hrest, List.append_nil, h.filterMap]

theorem digitText_of_all {cs : List Char} (h : ∀ c ∈ cs, isDigit c = true) :
    DigitText cs (cs.filterMap digitValue?) := by
  induction cs with
  | nil => exact .nil
  | cons c cs ih =>
    obtain ⟨hc, hcs⟩ := List.forall_mem_cons.1 h
    obtain ⟨d, hd⟩ := Option.isSome_iff_exists.1 hc
    rw [List.filterMap_cons_some hd]
    exact .cons hd (ih hcs)

theorem exists_digitText (cs : List Char) :
    ∃ run, DigitText run (digitRun cs).1 ∧ cs = run ++ (digitRun cs).2 ∧
      NotHead isDigit (digitRun cs).2 := by
  refine ⟨cs.takeWhile isDigit, digitText_of_all ?_, ?_, notHead_dropWhile _ _⟩
  · intro c hc
    exact List.mem_takeWhile_imp hc
  · exact List.takeWhile_append_dropWhile.symm

/-! ### The mantissa -/

/-- What may not follow a mantissa: a digit or a point. -/
def isDigitOrPoint (c : Char) : Bool := isDigit c || c = '.'

theorem notHead_isDigit {cs : List Char} (h : NotHead isDigitOrPoint cs) : NotHead isDigit cs :=
  fun c hc => (Bool.or_eq_false_iff.1 (h c hc)).1

theorem MantissaText.notHead {cs : List Char} {ds ds' : List Nat} (h : MantissaText cs ds ds')
    {p : Char → Bool} (hp : ∀ c, isDigit c = true → p c = false) (hpoint : p '.' = false) :
    NotHead p cs := by
  cases h with
  | whole h _ => exact h.notHead hp
  | point h _ _ => exact (h.notHead hp).append fun _ => notHead_cons.2 hpoint

theorem mantissaOf_append {cs rest : List Char} {ds ds' : List Nat} (h : MantissaText cs ds ds')
    (hrest : NotHead isDigitOrPoint rest) : mantissaOf (cs ++ rest) = (ds, ds', rest) := by
  cases h with
  | whole h _ =>
    rw [mantissaOf, digitRun_append h (notHead_isDigit hrest)]
    dsimp only
    split
    · rename_i cs' _
      exact absurd (notHead_cons.1 hrest) (by decide)
    · rfl
  | @point cs _ cs' _ h h' _ =>
    rw [List.append_assoc, List.cons_append, mantissaOf,
      digitRun_append h (notHead_cons.2 (by decide))]
    show (_, digitRun (cs' ++ rest)) = _
    rw [digitRun_append h' (notHead_isDigit hrest)]

theorem exists_mantissaText {cs : List Char}
    (h : ((mantissaOf cs).1.isEmpty && (mantissaOf cs).2.1.isEmpty) = false) :
    ∃ mantissa, MantissaText mantissa (mantissaOf cs).1 (mantissaOf cs).2.1 ∧
      cs = mantissa ++ (mantissaOf cs).2.2 := by
  obtain ⟨run, hrun, heq, -⟩ := exists_digitText cs
  unfold mantissaOf at h ⊢
  dsimp only at h ⊢
  split at h
  · rename_i rest hrest
    obtain ⟨run', hrun', heq', -⟩ := exists_digitText rest
    refine ⟨run ++ '.' :: run', .point hrun hrun' ?_, ?_⟩
    · intro hnil
      obtain ⟨h1, h2⟩ := List.append_eq_nil_iff.1 hnil
      dsimp only at h1 h2
      simp [h1, h2] at h
    · rw [List.append_assoc, List.cons_append, ← heq', ← hrest, ← heq]
  · refine ⟨run, .whole hrun ?_, heq⟩
    intro hnil
    dsimp only at hnil
    simp [hnil] at h

/-! ### The exponent -/

theorem exponentOf?_append {cs rest : List Char} {k : Int} (h : ExponentText cs k)
    (hrest : ∀ c ∈ rest, isBlank c = true) : exponentOf? (cs ++ rest) = some (k, rest) := by
  have hdigit : NotHead isDigit rest := fun c hc =>
    isDigit_of_isBlank (hrest c (List.mem_of_mem_head? hc))
  -- Blanks are no digits, so that the run of digits ends where the exponent does.
  cases h with
  | absent =>
    cases rest with
    | nil => rfl
    | cons c cs =>
      have hc : ¬ (c = 'e' ∨ c = 'E') := by
        rintro (rfl | rfl) <;> exact absurd (hrest _ (List.mem_cons_self ..)) (by decide)
      rw [List.nil_append, exponentOf?, if_neg hc]
  | present he hsign hds hne =>
    have hhead : NotHead isSign (_ ++ rest) :=
      (hds.notHead fun c => isSign_of_isDigit).append fun hnil => absurd (hds.eq_nil_iff.1 hnil) hne
    rw [List.cons_append, List.append_assoc, exponentOf?, if_pos he, signOf_append hsign hhead]
    dsimp only
    rw [digitRun_append hds hdigit]
    simp [hne]

theorem exists_exponentText {cs rest : List Char} {k : Int}
    (h : exponentOf? cs = some (k, rest)) : ∃ exponent, ExponentText exponent k ∧
      cs = exponent ++ rest := by
  cases cs with
  | nil =>
    simp only [exponentOf?, Option.some.injEq, Prod.mk.injEq] at h
    obtain ⟨rfl, rfl⟩ := h
    exact ⟨[], .absent, rfl⟩
  | cons c cs =>
    rw [exponentOf?] at h
    split_ifs at h with he
    · obtain ⟨sign, hsign, heq⟩ := exists_signText cs
      obtain ⟨run, hrun, heq', -⟩ := exists_digitText (signOf cs).2
      dsimp only at h
      by_cases hne : (digitRun (signOf cs).2).1 = []
      · rw [if_pos (by simp [hne])] at h
        exact absurd h (by simp)
      · rw [if_neg (by simp [hne])] at h
        simp only [Option.some.injEq, Prod.mk.injEq] at h
        obtain ⟨rfl, rfl⟩ := h
        refine ⟨c :: (sign ++ run), .present he hsign hrun hne, ?_⟩
        rw [List.cons_append, List.append_assoc, ← heq', ← heq]
    · simp only [Option.some.injEq, Prod.mk.injEq] at h
      obtain ⟨rfl, rfl⟩ := h
      exact ⟨[], .absent, rfl⟩

/-- What follows a mantissa begins neither with a digit nor with a point. -/
theorem ExponentText.notHead_append {cs rest : List Char} {k : Int} (h : ExponentText cs k)
    (hrest : ∀ c ∈ rest, isBlank c = true) : NotHead isDigitOrPoint (cs ++ rest) := by
  have hblank : ∀ c, isBlank c = true → isDigitOrPoint c = false := by
    intro c hc
    rw [isDigitOrPoint, isDigit_of_isBlank hc, Bool.false_or, decide_eq_false_iff_not]
    rintro rfl
    exact absurd hc (by decide)
  cases h with
  | absent => exact fun c hc => hblank c (hrest c (List.mem_of_mem_head? hc))
  | present he _ _ _ =>
    refine notHead_cons.2 ?_
    rcases he with rfl | rfl <;> decide

/-! ### The numeral -/

theorem ofNumeral?_of_numeralText {cs : List Char} {d : Decimal} (h : NumeralText cs d) :
    ofNumeral? cs = some d := by
  obtain @⟨blanks, sign, mantissa, exponent, blanks', negative, whole, fraction, k, hb, hs, hm, he,
    hb'⟩ := h
  -- A mantissa begins with a digit or a point, so that blanks and sign are told apart from it.
  have hmantissa : NotHead isBlank (mantissa ++ (exponent ++ blanks')) ∧
      NotHead isSign (mantissa ++ (exponent ++ blanks')) := by
    have hne : mantissa ≠ [] := by
      cases hm with
      | whole h hne => exact fun hnil => hne (h.eq_nil_iff.1 hnil)
      | point _ _ _ => simp
    exact ⟨(hm.notHead (fun c => isBlank_of_isDigit) (by decide)).append fun h => absurd h hne,
      (hm.notHead (fun c => isSign_of_isDigit) (by decide)).append fun h => absurd h hne⟩
  have hdrop : (blanks ++ (sign ++ (mantissa ++ (exponent ++ blanks')))).dropWhile isBlank =
      sign ++ (mantissa ++ (exponent ++ blanks')) := by
    rw [List.dropWhile_append_of_pos hb]
    exact dropWhile_of_notHead (hs.notHead_isBlank.append fun _ => hmantissa.1)
  have hne : (whole.isEmpty && fraction.isEmpty) = false := by
    cases hm with
    | whole _ hne => simp [hne]
    | point _ _ hne =>
      rw [Ne, List.append_eq_nil_iff, not_and_or] at hne
      rcases hne with h | h <;> simp [h]
  rw [ofNumeral?, hdrop, signOf_append hs hmantissa.2]
  dsimp only
  rw [mantissaOf_append hm (he.notHead_append hb')]
  dsimp only
  rw [if_neg (by rw [hne]; exact Bool.false_ne_true), exponentOf?_append he hb']
  exact if_pos (List.all_eq_true.2 hb')

theorem numeralText_of_ofNumeral? {cs : List Char} {d : Decimal} (h : ofNumeral? cs = some d) :
    NumeralText cs d := by
  obtain ⟨sign, hsign, heq⟩ := exists_signText (cs.dropWhile isBlank)
  unfold ofNumeral? at h
  dsimp only at h
  split_ifs at h with hempty
  · exact absurd h (by simp)
  obtain ⟨mantissa, hm, heqm⟩ := exists_mantissaText (by simpa using hempty)
  simp only [Option.bind_eq_bind, Option.bind_eq_some_iff, Prod.exists] at h
  obtain ⟨k, rest, hk, h⟩ := h
  obtain ⟨exponent, he, heqe⟩ := exists_exponentText hk
  split_ifs at h with hall
  obtain rfl := Option.some.inj h
  have hblanks : ∀ c ∈ cs.takeWhile isBlank, isBlank c = true := fun c hc =>
    List.mem_takeWhile_imp hc
  have htext := NumeralText.mk hblanks hsign hm he (List.all_eq_true.1 hall)
  rwa [← heqe, ← heqm, ← heq, List.takeWhile_append_dropWhile] at htext

/-- A text is read as a decimal exactly if it is a numeral that denotes the decimal. -/
theorem ofNumeral?_eq_some_iff {cs : List Char} {d : Decimal} :
    ofNumeral? cs = some d ↔ NumeralText cs d :=
  ⟨numeralText_of_ofNumeral?, ofNumeral?_of_numeralText⟩

end HandPath.Decimal
