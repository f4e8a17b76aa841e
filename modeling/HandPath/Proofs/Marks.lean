import HandPath.Notation.Beats
import HandPath.Proofs.Traversal
import Mathlib.Data.List.DropRight
import Mathlib.Tactic.SplitIfs

/-!
# HandPath.Proofs.Marks — the tokens of a beat and the rules for its marks

`Shape cur m`: the tokens `cur` keep the rules for marks, and the marks after them are `m`.  Such
tokens are a throw mark (optional), waypoints and, if there is at least one waypoint before it, a
catch mark with waypoints after it.

`Token.offence` says which rule a token breaks after the tokens of its beat, told from these tokens
alone.  A token that breaks no rule extends the shape, and one that does is refused with just that
violation (`Shape.next`); the same holds for the end of the beat (`Shape.close`).
-/

namespace HandPath.Notation

namespace Token

/-- A blank or a group. -/
def isWaypoint : Token → Bool
  | blank => true
  | group _ => true
  | _ => false

def isThrow : Token → Bool
  | throwMark _ => true
  | _ => false

def isCatch : Token → Bool
  | catchMark _ => true
  | _ => false

/-- The rule that a token breaks after the tokens `cur` of its beat. -/
def offence (cur : List Token) : Token → Option Violation
  | throwMark _ =>
    if cur.any isWaypoint then some .throwNotStart
    else if cur.any isThrow then some .tooManyThrows
    else none
  | catchMark _ =>
    if !cur.any isWaypoint then some .catchAtStart
    else if cur.any isCatch then some .tooManyCatches
    else none
  | beatEnd =>
    if cur.countP isWaypoint < 2 then some .tooFewCoords
    else if cur.getLast?.any isCatch then some .noCatchCoord
    else none
  | blank => none
  | group _ => none

end Token

open Token

/-- The waypoint that is caught at, counted from zero: the one after the catch mark, or the last. -/
def catchPlace (cur : List Token) : Nat :=
  if cur.any isCatch then (cur.takeWhile (!isCatch ·)).countP isWaypoint
  else cur.countP isWaypoint - 1

/-- No throw mark, or one. -/
def OptionalThrow (ts : List Token) : Prop := ts = [] ∨ ∃ small, ts = [.throwMark small]

/-- Waypoints only. -/
def Waypoints (ts : List Token) : Prop := ∀ t ∈ ts, t.isWaypoint = true

/-- The tokens of an unfinished beat that keep the rules for marks, and the marks after them. -/
inductive Shape : List Token → BeatMarks → Prop
  | unmarked {throw ws : List Token} : OptionalThrow throw → Waypoints ws →
      Shape (throw ++ ws) ⟨ws.length, !throw.isEmpty, none⟩
  | marked {throw before after : List Token} {small : Bool} : OptionalThrow throw →
      Waypoints before → before ≠ [] → Waypoints after →
      Shape (throw ++ (before ++ .catchMark small :: after))
        ⟨before.length + after.length, !throw.isEmpty, some before.length⟩

/-! ### Counting in the parts of a shape -/

theorem Waypoints.countP {ws : List Token} (h : Waypoints ws) :
    ws.countP isWaypoint = ws.length := List.countP_eq_length.2 h

/-- Waypoints are no marks. -/
theorem Waypoints.any_eq_false {ws : List Token} (h : Waypoints ws) {p : Token → Bool}
    (hp : ∀ t, t.isWaypoint = true → p t = false) : ws.any p = false :=
  List.any_eq_false.2 fun t ht => by simp [hp t (h t ht)]

theorem isThrow_of_isWaypoint (t : Token) (h : t.isWaypoint = true) : t.isThrow = false := by
  cases t <;> first | rfl | exact nomatch h

theorem isCatch_of_isWaypoint (t : Token) (h : t.isWaypoint = true) : t.isCatch = false := by
  cases t <;> first | rfl | exact nomatch h

theorem Waypoints.append {ws ws' : List Token} (h : Waypoints ws) (h' : Waypoints ws') :
    Waypoints (ws ++ ws') := List.forall_mem_append.2 ⟨h, h'⟩

theorem waypoints_nil : Waypoints [] := by simp [Waypoints]

theorem waypoints_singleton {t : Token} (h : t.isWaypoint = true) : Waypoints [t] := by
  simpa [Waypoints] using h

theorem OptionalThrow.countP {ts : List Token} (h : OptionalThrow ts) :
    ts.countP isWaypoint = 0 := by
  rcases h with rfl | ⟨small, rfl⟩ <;> rfl

theorem OptionalThrow.any_isWaypoint {ts : List Token} (h : OptionalThrow ts) :
    ts.any isWaypoint = false := by
  rcases h with rfl | ⟨small, rfl⟩ <;> rfl

theorem OptionalThrow.any_isThrow {ts : List Token} (h : OptionalThrow ts) :
    ts.any isThrow = !ts.isEmpty := by
  rcases h with rfl | ⟨small, rfl⟩ <;> rfl

theorem OptionalThrow.any_isCatch {ts : List Token} (h : OptionalThrow ts) :
    ts.any isCatch = false := by
  rcases h with rfl | ⟨small, rfl⟩ <;> rfl

theorem OptionalThrow.takeWhile_append {ts : List Token} (h : OptionalThrow ts)
    (us : List Token) : (ts ++ us).takeWhile (!isCatch ·) = ts ++ us.takeWhile (!isCatch ·) := by
  rcases h with rfl | ⟨small, rfl⟩ <;> rfl

namespace Shape

variable {cur : List Token} {m : BeatMarks}

theorem start : Shape [] .start := .unmarked (.inl rfl) waypoints_nil

theorem countP (h : Shape cur m) : cur.countP isWaypoint = m.count := by
  cases h with
  | unmarked ht hw => rw [List.countP_append, ht.countP, hw.countP, Nat.zero_add]
  | marked ht hb _ ha =>
    rw [List.countP_append, ht.countP, List.countP_append, hb.countP,
      List.countP_cons_of_neg (by simp [isWaypoint]), ha.countP, Nat.zero_add]

theorem any_isWaypoint (h : Shape cur m) : cur.any isWaypoint = true ↔ m.count ≠ 0 := by
  rw [← h.countP, ← Nat.pos_iff_ne_zero, List.countP_pos_iff, List.any_eq_true]

theorem any_isThrow (h : Shape cur m) : cur.any isThrow = m.thrown := by
  cases h with
  | unmarked ht hw =>
    rw [List.any_append, ht.any_isThrow, hw.any_eq_false isThrow_of_isWaypoint, Bool.or_false]
  | marked ht hb _ ha =>
    rw [List.any_append, ht.any_isThrow, List.any_append, hb.any_eq_false isThrow_of_isWaypoint,
      List.any_cons, ha.any_eq_false isThrow_of_isWaypoint]
    simp [isThrow]

theorem any_isCatch (h : Shape cur m) : cur.any isCatch = m.catchAt.isSome := by
  cases h with
  | unmarked ht hw =>
    rw [List.any_append, ht.any_isCatch, hw.any_eq_false isCatch_of_isWaypoint]
    rfl
  | marked ht hb _ ha =>
    rw [List.any_append, ht.any_isCatch, List.any_append, hb.any_eq_false isCatch_of_isWaypoint,
      List.any_cons]
    simp [isCatch]

/-- The last token is a catch mark exactly if the marked waypoint is still to come. -/
theorem getLast?_isCatch (h : Shape cur m) :
    cur.getLast?.any isCatch = true ↔ ∃ k, m.catchAt = some k ∧ m.count ≤ k := by
  cases h with
  | @unmarked throw ws ht hw =>
    have hno : (throw ++ ws).any isCatch = false := by
      rw [List.any_append, ht.any_isCatch, hw.any_eq_false isCatch_of_isWaypoint]
      rfl
    refine ⟨?_, ?_⟩
    · intro h
      obtain ⟨t, hlast, hcatch⟩ := (Option.any_eq_true _ _).1 h
      rw [List.any_eq_false] at hno
      exact absurd hcatch (hno t (List.mem_of_getLast? hlast))
    · rintro ⟨k, hk, -⟩
      exact nomatch hk
  | @marked throw before after small ht hb _ ha =>
    refine ⟨?_, ?_⟩
    · intro h
      refine ⟨_, rfl, ?_⟩
      -- A waypoint behind the mark would be the last token, and it is no mark.
      rcases List.eq_nil_or_concat after with rfl | ⟨after', t, rfl⟩
      · simp
      · rw [List.concat_eq_append] at h ha
        obtain ⟨u, hlast, hcatch⟩ := (Option.any_eq_true _ _).1 h
        rw [← List.cons_append, ← List.append_assoc, ← List.append_assoc,
          List.getLast?_concat] at hlast
        cases hlast
        rw [isCatch_of_isWaypoint t (ha t (by simp))] at hcatch
        exact absurd hcatch (by decide)
    · rintro ⟨k, hk, hle⟩
      cases hk
      have hnil : after = [] := List.length_eq_zero_iff.1 (by dsimp only at hle; omega)
      subst hnil
      rw [← List.append_assoc, List.getLast?_concat]
      rfl

theorem catchAt_pos (h : Shape cur m) {k : Nat} (hk : m.catchAt = some k) : 0 < k := by
  cases h with
  | unmarked => exact nomatch hk
  | marked _ _ hne _ =>
    cases hk
    exact List.length_pos_iff.2 hne

theorem catchPlace_eq (h : Shape cur m) :
    catchPlace cur = m.catchAt.getD (m.count - 1) := by
  rw [catchPlace, h.any_isCatch, h.countP]
  cases h with
  | unmarked => rfl
  | marked ht hb _ ha =>
    rw [if_pos (Option.isSome_some ..), ht.takeWhile_append, List.countP_append, ht.countP,
      List.takeWhile_append_of_pos fun t h => by simp [isCatch_of_isWaypoint t (hb t h)],
      List.takeWhile_cons_of_neg (by simp [isCatch]), List.append_nil, hb.countP, Nat.zero_add]
    rfl

theorem filter_unmarked {throw ws : List Token} (ht : OptionalThrow throw) (hw : Waypoints ws) :
    (throw ++ ws).filter isWaypoint = ws := by
  rw [List.filter_append, List.filter_eq_self.2 hw]
  rcases ht with rfl | ⟨small, rfl⟩ <;> rfl

theorem filter_marked {throw before after : List Token} {small : Bool} (ht : OptionalThrow throw)
    (hb : Waypoints before) (ha : Waypoints after) :
    (throw ++ (before ++ .catchMark small :: after)).filter isWaypoint = before ++ after := by
  rw [List.filter_append, List.filter_append, List.filter_eq_self.2 hb,
    List.filter_cons_of_neg (by simp [isWaypoint]), List.filter_eq_self.2 ha]
  rcases ht with rfl | ⟨small, rfl⟩ <;> rfl

/-- A beat may end after a shape with two waypoints, if one follows the catch mark. -/
theorem fine_iff (h : Shape cur m) : Token.beatEnd.offence cur = none ↔
    2 ≤ m.count ∧ ∀ k, m.catchAt = some k → k < m.count := by
  simp only [offence, h.countP, h.getLast?_isCatch]
  split_ifs with hcount hlast
  · refine ⟨?_, ?_⟩
    · intro h
      nomatch h
    · rintro ⟨h, -⟩
      omega
  · refine ⟨?_, ?_⟩
    · intro h
      nomatch h
    · rintro ⟨-, h⟩
      obtain ⟨k, hk, hle⟩ := hlast
      have := h k hk
      omega
  · refine ⟨fun _ => ⟨by omega, fun k hk => ?_⟩, fun _ => rfl⟩
    by_contra hle
    exact hlast ⟨k, hk, by omega⟩

/-- Without waypoints there is a throw mark at most. -/
theorem optionalThrow (h : Shape cur m) (hno : cur.any isWaypoint = false) :
    OptionalThrow cur := by
  have hcount : m.count = 0 := by
    by_contra hne
    rw [h.any_isWaypoint.2 hne] at hno
    nomatch hno
  cases h with
  | @unmarked throw ws ht _ =>
    have hws : ws = [] := List.length_eq_zero_iff.1 hcount
    rwa [hws, List.append_nil]
  | marked _ _ hne _ =>
    have hpos := List.length_pos_iff.2 hne
    dsimp only at hcount
    omega

/-! ### One more token -/

/-- A waypoint after a shape. -/
theorem concat_waypoint (h : Shape cur m) {t : Token} (ht : t.isWaypoint = true) :
    Shape (cur ++ [t]) m.waypoint := by
  have hw := waypoints_singleton ht
  cases h with
  | @unmarked throw ws hthrow hws =>
    have h := Shape.unmarked hthrow (hws.append hw)
    rw [List.length_append] at h
    rwa [List.append_assoc]
  | @marked throw before after small hthrow hb hne ha =>
    have h := @Shape.marked throw before _ small hthrow hb hne (ha.append hw)
    rw [List.length_append, ← Nat.add_assoc] at h
    simpa [BeatMarks.waypoint] using h

theorem concat_throwMark (h : Shape cur m) (small : Bool) (hcount : m.count = 0)
    (hthrown : m.thrown = false) : Shape (cur ++ [.throwMark small]) { m with thrown := true } := by
  cases h with
  | @unmarked throw ws _ _ =>
    have hws : ws = [] := List.length_eq_zero_iff.1 hcount
    have hthrow : throw = [] := by simpa using hthrown
    subst hws hthrow
    exact @Shape.unmarked [.throwMark small] [] (.inr ⟨small, rfl⟩) waypoints_nil
  | @marked throw before after _ _ _ hne _ =>
    have hpos := List.length_pos_iff.2 hne
    dsimp only at hcount
    omega

theorem concat_catchMark (h : Shape cur m) (small : Bool) (hcount : m.count ≠ 0)
    (hcatch : m.catchAt = none) :
    Shape (cur ++ [.catchMark small]) { m with catchAt := some m.count } := by
  cases h with
  | @unmarked throw ws hthrow hws =>
    have hne : ws ≠ [] := fun hnil => hcount (by rw [hnil]; rfl)
    have h := @Shape.marked throw ws [] small hthrow hws hne waypoints_nil
    rwa [← List.append_assoc] at h
  | marked => exact nomatch hcatch

/-- A token that does not end the beat: it breaks a rule and is refused with the violation, or
breaks none and extends the shape. -/
theorem next (h : Shape cur m) {t : Token} (ht : t ≠ .beatEnd) :
    (∃ v, t.offence cur = some v ∧ m.next t = .error v) ∨
      t.offence cur = none ∧ ∃ m', m.next t = .ok m' ∧ Shape (cur ++ [t]) m' := by
  -- The shape turns each condition on the tokens into the test that the step makes.
  cases t with
  | beatEnd => exact absurd rfl ht
  | blank => exact .inr ⟨rfl, _, rfl, h.concat_waypoint rfl⟩
  | group inside => exact .inr ⟨rfl, _, rfl, h.concat_waypoint rfl⟩
  | throwMark small =>
    simp only [offence, BeatMarks.next, BeatMarks.throwMark, h.any_isWaypoint, h.any_isThrow]
    split_ifs with hcount hthrown
    · exact .inl ⟨_, rfl, rfl⟩
    · exact .inl ⟨_, rfl, rfl⟩
    · exact .inr ⟨rfl, _, rfl,
        h.concat_throwMark small (by simpa using hcount) (by simpa using hthrown)⟩
  | catchMark small =>
    simp only [offence, BeatMarks.next, BeatMarks.catchMark, Bool.not_eq_true',
      ← Bool.not_eq_true, h.any_isWaypoint, h.any_isCatch, ne_eq, Decidable.not_not]
    split_ifs with hcount hcatch
    · exact .inl ⟨_, rfl, rfl⟩
    · exact .inl ⟨_, rfl, rfl⟩
    · exact .inr ⟨rfl, _, rfl,
        h.concat_catchMark small hcount (by simpa using hcatch)⟩

/-- The end of the beat breaks a rule and is refused with the violation, or breaks none and gives
the layout of the beat. -/
theorem close (h : Shape cur m) :
    (∃ v, Token.beatEnd.offence cur = some v ∧ m.close = .error v) ∨
      Token.beatEnd.offence cur = none ∧ m.close = .ok ⟨m.count, catchPlace cur⟩ ∧
        2 ≤ m.count ∧ 1 ≤ catchPlace cur ∧ catchPlace cur < m.count := by
  simp only [offence, BeatMarks.close, h.countP, h.getLast?_isCatch]
  have hplace := h.catchPlace_eq
  split_ifs with hcount hlast
  · exact .inl ⟨_, rfl, rfl⟩
  · obtain ⟨k, hk, hle⟩ := hlast
    rw [hk]
    exact .inl ⟨_, rfl, if_pos hle⟩
  · refine .inr ⟨rfl, ?_⟩
    cases hk : m.catchAt with
    | none =>
      rw [hk, Option.getD_none] at hplace
      rw [hplace]
      exact ⟨rfl, by omega, by omega, by omega⟩
    | some k =>
      rw [hk, Option.getD_some] at hplace
      have hlt : ¬ m.count ≤ k := fun hle => hlast ⟨k, hk, hle⟩
      have hpos := h.catchAt_pos hk
      rw [hplace]
      exact ⟨if_neg hlt, by omega, by omega, by omega⟩

end Shape

end HandPath.Notation
