import Mathlib.Data.List.Forall2

/-!
# HandPath.Proofs.Traversal — what runs that stop at the first failure give

A run succeeds if all of its steps do, and fails with the first step that fails: for two steps in
sequence (`bind_eq_ok_iff`, `bind_eq_error_iff`), for a traversal of a list (`mapM_eq_ok_iff`,
`mapM_eq_error_iff`), and for a check of every item against the items before it (`Passes`,
`FailsFirst`).
-/

namespace HandPath.Traversal

variable {ε α β : Type}

/-! ### Two steps -/

theorem bind_eq_ok_iff {x : Except ε α} {f : α → Except ε β} {b : β} :
    x >>= f = .ok b ↔ ∃ a, x = .ok a ∧ f a = .ok b := by
  cases x with
  | error e =>
    refine ⟨?_, ?_⟩
    · intro h
      nomatch h
    · rintro ⟨_, h, _⟩
      nomatch h
  | ok a =>
    refine ⟨?_, ?_⟩
    · exact fun h => ⟨a, rfl, h⟩
    · rintro ⟨a', h, h'⟩
      cases h
      exact h'

theorem bind_eq_error_iff {x : Except ε α} {f : α → Except ε β} {e : ε} :
    x >>= f = .error e ↔ x = .error e ∨ ∃ a, x = .ok a ∧ f a = .error e := by
  cases x with
  | error e' =>
    refine ⟨?_, ?_⟩
    · intro h
      cases h
      exact .inl rfl
    · rintro (h | ⟨_, h, _⟩)
      · cases h
        rfl
      · nomatch h
  | ok a =>
    refine ⟨?_, ?_⟩
    · exact fun h => .inr ⟨a, rfl, h⟩
    · rintro (h | ⟨a', h, h'⟩)
      · nomatch h
      · cases h
        exact h'

/-- A second step that gives a result does not fail. -/
theorem bind_ok_eq_error_iff {x : Except ε α} {f : α → β} {e : ε} :
    (x >>= fun a => (.ok (f a) : Except ε β)) = .error e ↔ x = .error e := by
  rw [bind_eq_error_iff]
  constructor
  · rintro (h | ⟨a, -, h⟩)
    · exact h
    · nomatch h
  · exact .inl

/-- What is made of the errors of two steps is made of the error of either. -/
theorem mapError_bind {ε' : Type} (g : ε → ε') (x : Except ε α) (f : α → Except ε β) :
    (x >>= f).mapError g = x.mapError g >>= fun a => (f a).mapError g := by
  cases x with
  | error e => rfl
  | ok a => rfl

/-! ### Lists -/

theorem exists_forall₂_iff {R : α → β → Prop} {xs : List α} :
    (∃ ys, List.Forall₂ R xs ys) ↔ ∀ x ∈ xs, ∃ y, R x y := by
  induction xs with
  | nil => exact iff_of_true ⟨[], .nil⟩ (by simp)
  | cons x xs ih =>
    rw [List.forall_mem_cons, ← ih]
    refine ⟨?_, ?_⟩
    · rintro ⟨ys, h⟩
      cases h with
      | cons hx hxs => exact ⟨⟨_, hx⟩, _, hxs⟩
    · rintro ⟨⟨y, hy⟩, ys, hys⟩
      exact ⟨y :: ys, .cons hy hys⟩

theorem forall₂_append_left_iff {R : α → β → Prop} {xs ys : List α} {zs : List β} :
    List.Forall₂ R (xs ++ ys) zs ↔
      ∃ us vs, List.Forall₂ R xs us ∧ List.Forall₂ R ys vs ∧ zs = us ++ vs := by
  induction xs generalizing zs with
  | nil =>
    refine ⟨?_, ?_⟩
    · exact fun h => ⟨[], zs, .nil, h, rfl⟩
    · rintro ⟨us, vs, hus, hvs, rfl⟩
      rw [List.forall₂_nil_left_iff.1 hus]
      exact hvs
  | cons x xs ih =>
    rw [List.cons_append, List.forall₂_cons_left_iff]
    refine ⟨?_, ?_⟩
    · rintro ⟨z, zs', hz, h, rfl⟩
      obtain ⟨us, vs, hus, hvs, rfl⟩ := ih.1 h
      exact ⟨z :: us, vs, .cons hz hus, hvs, rfl⟩
    · rintro ⟨us, vs, hus, hvs, rfl⟩
      obtain ⟨u, us', hu, hus', rfl⟩ := List.forall₂_cons_left_iff.1 hus
      exact ⟨u, us' ++ vs, hu, ih.2 ⟨us', vs, hus', hvs, rfl⟩, rfl⟩

theorem mapM_eq_ok_iff {f : α → Except ε β} {xs : List α} {ys : List β} :
    xs.mapM f = .ok ys ↔ List.Forall₂ (fun x y => f x = .ok y) xs ys := by
  induction xs generalizing ys with
  | nil =>
    rw [List.mapM_nil, List.forall₂_nil_left_iff]
    exact ⟨fun h => (Except.ok.inj h).symm, fun h => congrArg Except.ok h.symm⟩
  | cons x xs ih =>
    rw [List.mapM_cons, bind_eq_ok_iff, List.forall₂_cons_left_iff]
    refine ⟨?_, ?_⟩
    · rintro ⟨y, hy, h⟩
      obtain ⟨ys', hys', h'⟩ := bind_eq_ok_iff.1 h
      exact ⟨y, ys', hy, ih.1 hys', (Except.ok.inj h').symm⟩
    · rintro ⟨y, ys', hy, hys', rfl⟩
      exact ⟨y, hy, bind_eq_ok_iff.2 ⟨ys', ih.2 hys', rfl⟩⟩

/-- An item after items of which `p` holds is the first of all, or one behind the first. -/
theorem exists_after_cons_iff {p : α → Prop} {q : List α → α → Prop} {x : α} {xs : List α} :
    (∃ before y after, x :: xs = before ++ y :: after ∧ (∀ z ∈ before, p z) ∧ q before y) ↔
      q [] x ∨ p x ∧ ∃ before y after, xs = before ++ y :: after ∧ (∀ z ∈ before, p z) ∧
        q (x :: before) y := by
  refine ⟨?_, ?_⟩
  · rintro ⟨before, y, after, h, hbefore, hy⟩
    cases before with
    | nil =>
      obtain ⟨rfl, rfl⟩ := List.cons_eq_cons.1 h
      exact .inl hy
    | cons w before =>
      obtain ⟨rfl, rfl⟩ := List.cons_eq_cons.1 h
      obtain ⟨hw, hbefore⟩ := List.forall_mem_cons.1 hbefore
      exact .inr ⟨hw, before, y, after, rfl, hbefore, hy⟩
  · rintro (hx | ⟨hx, before, y, after, rfl, hbefore, hy⟩)
    · exact ⟨[], x, xs, rfl, by simp, hx⟩
    · exact ⟨x :: before, y, after, rfl, List.forall_mem_cons.2 ⟨hx, hbefore⟩, hy⟩

theorem mapM_eq_error_iff {f : α → Except ε β} {xs : List α} {e : ε} :
    xs.mapM f = .error e ↔ ∃ before x after, xs = before ++ x :: after ∧
      (∀ y ∈ before, ∃ b, f y = .ok b) ∧ f x = .error e := by
  induction xs with
  | nil =>
    rw [List.mapM_nil]
    refine ⟨?_, ?_⟩
    · exact fun h => nomatch h
    · rintro ⟨before, x, after, h, -, -⟩
      exact absurd h (by simp)
  | cons x xs ih =>
    -- The first failure is that of `x`, or `x` succeeds and it is among the others.
    rw [List.mapM_cons, bind_eq_error_iff,
      exists_after_cons_iff (p := fun y => ∃ b, f y = .ok b) (q := fun _ y => f y = .error e), ← ih]
    refine or_congr_right ⟨?_, ?_⟩
    · rintro ⟨y, hy, h⟩
      rcases bind_eq_error_iff.1 h with h | ⟨_, _, h⟩
      · exact ⟨⟨y, hy⟩, h⟩
      · nomatch h
    · rintro ⟨⟨y, hy⟩, h⟩
      exact ⟨y, hy, bind_eq_error_iff.2 (.inl h)⟩

/-! ### The first failure of a check -/

/-- No item of `xs` fails a check, which knows the items before it; those before `xs` are given. -/
def Passes (check : List α → α → Option ε) (before xs : List α) : Prop :=
  ∀ a x b, xs = a ++ x :: b → check (before ++ a) x = none

theorem passes_nil (check : List α → α → Option ε) (before : List α) : Passes check before [] :=
  fun a x b h => absurd h (by simp)

theorem passes_cons {check : List α → α → Option ε} {before : List α} {x : α} {xs : List α} :
    Passes check before (x :: xs) ↔
      check before x = none ∧ Passes check (before ++ [x]) xs := by
  refine ⟨?_, ?_⟩
  · intro h
    refine ⟨by simpa using h [] x xs rfl, fun a y b hxs => ?_⟩
    simpa using h (x :: a) y b (by rw [hxs]; rfl)
  · rintro ⟨hx, hxs⟩ a y b h
    cases a with
    | nil =>
      obtain ⟨rfl, rfl⟩ := List.cons_eq_cons.1 h
      simpa using hx
    | cons w a =>
      obtain ⟨rfl, rfl⟩ := List.cons_eq_cons.1 h
      simpa using hxs a y b rfl

/-- The first item of `xs` that fails the check fails it with `e`. -/
def FailsFirst (check : List α → α → Option ε) (before xs : List α) (e : ε) : Prop :=
  ∃ a x b, xs = a ++ x :: b ∧ Passes check before a ∧ check (before ++ a) x = some e

theorem failsFirst_cons {check : List α → α → Option ε} {before : List α} {x : α} {xs : List α}
    {e : ε} : FailsFirst check before (x :: xs) e ↔
      check before x = some e ∨
        check before x = none ∧ FailsFirst check (before ++ [x]) xs e := by
  refine ⟨?_, ?_⟩
  · rintro ⟨a, y, b, h, ha, hy⟩
    cases a with
    | nil =>
      obtain ⟨rfl, rfl⟩ := List.cons_eq_cons.1 h
      exact .inl (by simpa using hy)
    | cons w a =>
      obtain ⟨rfl, rfl⟩ := List.cons_eq_cons.1 h
      obtain ⟨hx, ha⟩ := passes_cons.1 ha
      exact .inr ⟨hx, a, y, b, rfl, ha, by simpa using hy⟩
  · rintro (h | ⟨hx, a, y, b, rfl, ha, hy⟩)
    · exact ⟨[], x, xs, rfl, passes_nil _ _, by simpa using h⟩
    · exact ⟨x :: a, y, b, rfl, passes_cons.2 ⟨hx, ha⟩, by simpa using hy⟩

theorem not_failsFirst_nil {check : List α → α → Option ε} {before : List α} {e : ε} :
    ¬ FailsFirst check before [] e := by
  rintro ⟨a, x, b, h, -, -⟩
  exact absurd h (by simp)

theorem passes_append {check : List α → α → Option ε} {before xs ys : List α} :
    Passes check before (xs ++ ys) ↔
      Passes check before xs ∧ Passes check (before ++ xs) ys := by
  induction xs generalizing before with
  | nil => simp [passes_nil]
  | cons x xs ih =>
    rw [List.cons_append, passes_cons, passes_cons, ih, and_assoc, List.append_cons before x xs]

/-- The first item that fails is among the first of two lists, or all of these pass. -/
theorem failsFirst_append {check : List α → α → Option ε} {before xs ys : List α} {e : ε} :
    FailsFirst check before (xs ++ ys) e ↔ FailsFirst check before xs e ∨
      Passes check before xs ∧ FailsFirst check (before ++ xs) ys e := by
  induction xs generalizing before with
  | nil => simp [passes_nil, not_failsFirst_nil]
  | cons x xs ih =>
    rw [List.cons_append, failsFirst_cons, failsFirst_cons, passes_cons, ih, and_or_left, or_assoc,
      and_assoc, List.append_cons before x xs]

/-- Either every item passes, or there is a first one that does not. -/
theorem passes_or_failsFirst (check : List α → α → Option ε) (before xs : List α) :
    Passes check before xs ∨ ∃ e, FailsFirst check before xs e := by
  induction xs generalizing before with
  | nil => exact .inl (passes_nil _ _)
  | cons x xs ih =>
    cases hx : check before x with
    | some e => exact .inr ⟨e, failsFirst_cons.2 (.inl hx)⟩
    | none =>
      rcases ih (before ++ [x]) with h | ⟨e, h⟩
      · exact .inl (passes_cons.2 ⟨hx, h⟩)
      · exact .inr ⟨e, failsFirst_cons.2 (.inr ⟨hx, h⟩)⟩

/-- What is made of the errors of a check makes no difference to which items pass it. -/
theorem passes_map {check : List α → α → Option ε} (g : ε → ε) {before xs : List α} :
    Passes (fun before x => (check before x).map g) before xs ↔ Passes check before xs := by
  simp only [Passes, Option.map_eq_none_iff]

theorem FailsFirst.map {check : List α → α → Option ε} (g : ε → ε) {before xs : List α} {e : ε}
    (h : FailsFirst check before xs e) :
    FailsFirst (fun before x => (check before x).map g) before xs (g e) := by
  obtain ⟨a, x, b, hxs, ha, hx⟩ := h
  refine ⟨a, x, b, hxs, (passes_map g).2 ha, ?_⟩
  show (check (before ++ a) x).map g = some (g e)
  rw [hx]
  rfl

/-- A run over `xs` gives a result if every item passes the check, and fails as the first item that
does not. -/
structure Finds (check : List α → α → Option ε) (before xs : List α) (r : Except ε β) : Prop where
  ok : Passes check before xs → ∃ b, r = .ok b
  error : ∀ e, FailsFirst check before xs e → r = .error e

theorem Finds.nil (check : List α → α → Option ε) (before : List α) (b : β) :
    Finds check before [] (.ok b) :=
  ⟨fun _ => ⟨b, rfl⟩, fun _ h => absurd h not_failsFirst_nil⟩

/-- A run that fails as its first item does. -/
theorem Finds.of_some {check : List α → α → Option ε} {before : List α} {x : α} {e : ε}
    (h : check before x = some e) (xs : List α) :
    Finds check before (x :: xs) (.error e : Except ε β) := by
  refine ⟨fun hp => ?_, fun e' hf => ?_⟩
  · rw [(passes_cons.1 hp).1] at h
    nomatch h
  · rcases failsFirst_cons.1 hf with h' | ⟨h', -⟩
    · rw [h] at h'
      rw [Option.some.inj h']
    · rw [h] at h'
      nomatch h'

/-- A run that goes on after its first item. -/
theorem Finds.of_none {check : List α → α → Option ε} {before : List α} {x : α} {xs : List α}
    {r : Except ε β} (h : check before x = none) (hr : Finds check (before ++ [x]) xs r) :
    Finds check before (x :: xs) r := by
  refine ⟨fun hp => hr.ok (passes_cons.1 hp).2, fun e hf => ?_⟩
  rcases failsFirst_cons.1 hf with h' | ⟨-, h'⟩
  · rw [h] at h'
    nomatch h'
  · exact hr.error e h'

/-- What is made of the result makes no difference. -/
theorem Finds.bind_ok {γ : Type} {check : List α → α → Option ε} {before xs : List α}
    {r : Except ε β} (hr : Finds check before xs r) (f : β → γ) :
    Finds check before xs (r >>= fun b => .ok (f b)) := by
  refine ⟨fun hp => ?_, fun e hf => bind_eq_error_iff.2 (.inl (hr.error e hf))⟩
  obtain ⟨b, hb⟩ := hr.ok hp
  exact ⟨f b, bind_eq_ok_iff.2 ⟨b, hb, rfl⟩⟩

/-- A run that fails found the first failure. -/
theorem Finds.failsFirst {check : List α → α → Option ε} {before xs : List α} {r : Except ε β}
    {e : ε} (hr : Finds check before xs r) (h : r = .error e) : FailsFirst check before xs e := by
  -- Had all items passed, there would be a result; so one fails first, and with this error.
  rcases passes_or_failsFirst check before xs with hp | ⟨e', hf⟩
  · obtain ⟨b, hb⟩ := hr.ok hp
    rw [hb] at h
    nomatch h
  · rw [hr.error e' hf] at h
    rwa [← Except.error.inj h]

/-- A run that gives a result found no failure. -/
theorem Finds.passes {check : List α → α → Option ε} {before xs : List α} {r : Except ε β}
    {b : β} (hr : Finds check before xs r) (h : r = .ok b) : Passes check before xs := by
  rcases passes_or_failsFirst check before xs with hp | ⟨e, hf⟩
  · exact hp
  · rw [hr.error e hf] at h
    nomatch h

end HandPath.Traversal
