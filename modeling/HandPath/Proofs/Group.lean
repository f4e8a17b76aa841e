import HandPath.Notation.Group
import HandPath.Proofs.Numeral
import HandPath.Proofs.Traversal

/-!
# HandPath.Proofs.Group — what a coordinate group denotes, and why one fails

`GroupText inside c`: the inside of a group has a component, each of its first three is a numeral
with a finite value and no information separator, and `c` has these values in the order x, z, y,
with zeros for those left out.  A group is read as `c` exactly if this holds
(`readGroup_eq_ok_iff`); otherwise it has no component at all, or the first component that does not
denote a number decides the failure (`readGroup_eq_error_iff`).
-/

namespace HandPath

/-- The fault at another place: `f` changes the number of its segment and `g` that of its beat. -/
def Fault.move (f g : Option Int → Option Int) (e : Fault) : Fault :=
  { e with juggler := f e.juggler, beat := g e.beat }

/-- The failure at another place, where it has one. -/
def Failure.move (f g : Option Int → Option Int) : Failure → Failure
  | .fault e => .fault (e.move f g)
  | .emptyGroup inside juggler beat => .emptyGroup inside (f juggler) (g beat)
  | .unreadableNumeral numeral => .unreadableNumeral numeral
  | .outOfRange => .outOfRange

end HandPath

namespace HandPath.Notation

open Text Decimal Traversal

/-- A component that denotes a number: a numeral without information separators, whose nearest
binary64 number is finite. -/
def ComponentText (cs : List Char) (v : Binary64) : Prop :=
  ∃ d, NumeralText cs d ∧ (∀ c ∈ cs, isInformationSeparator c = false) ∧ d.toBinary64 = v ∧
    v.isFinite = true

/-- The inside of a group that denotes a coordinate: its first three components are the numbers
x, z and y, and those left out are zero. -/
def GroupText (inside : List Char) (c : Coordinate) : Prop :=
  ∃ vs, List.Forall₂ ComponentText (components inside) vs ∧ vs ≠ [] ∧
    c = ⟨vs.getD 0 (.zero false), vs.getD 2 (.zero false), vs.getD 1 (.zero false)⟩

/-- Why a component of the group `inside` does not denote a number. -/
inductive ComponentFault (inside : List Char) (juggler beat : Option Int) (cs : List Char) :
    Failure → Prop
  | noNumeral : (∀ d, ¬ NumeralText cs d) →
      ComponentFault inside juggler beat cs (.mistake (.badCoordinate inside) juggler beat)
  | separator {d : Decimal} {c : Char} : NumeralText cs d → c ∈ cs →
      isInformationSeparator c = true →
      ComponentFault inside juggler beat cs (.unreadableNumeral cs)
  | infinite {d : Decimal} : NumeralText cs d → (∀ c ∈ cs, isInformationSeparator c = false) →
      d.toBinary64.isFinite = false →
      ComponentFault inside juggler beat cs (.mistake (.badCoordinate inside) juggler beat)

variable {inside : List Char} {juggler beat : Option Int}

/-! ### Components -/

theorem ComponentFault.move {cs : List Char} {e : Failure} (f g : Option Int → Option Int)
    (h : ComponentFault inside juggler beat cs e) :
    ComponentFault inside (f juggler) (g beat) cs (e.move f g) := by
  cases h with
  | noNumeral hno => exact .noNumeral hno
  | separator hd hc hsep => exact .separator hd hc hsep
  | infinite hd hsep hfin => exact .infinite hd hsep hfin

theorem readComponent_eq_ok_iff {cs : List Char} {v : Binary64} :
    readComponent inside juggler beat cs = .ok v ↔ ComponentText cs v := by
  rw [readComponent]
  refine ⟨?_, ?_⟩
  · intro h
    split at h
    · exact nomatch h
    rename_i d hd
    split_ifs at h with hsep hfin
    cases h
    refine ⟨d, ofNumeral?_eq_some_iff.1 hd, fun c hc => ?_, rfl, hfin⟩
    by_contra hne
    exact hsep (List.any_eq_true.2 ⟨c, hc, by simpa using hne⟩)
  · rintro ⟨d, hd, hsep, rfl, hfin⟩
    have hnone : ¬ cs.any isInformationSeparator = true := by simpa using hsep
    simp only [ofNumeral?_eq_some_iff.2 hd, if_neg hnone, if_pos hfin]

theorem readComponent_eq_error_iff {cs : List Char} {f : Failure} :
    readComponent inside juggler beat cs = .error f ↔
      ComponentFault inside juggler beat cs f := by
  rw [readComponent]
  refine ⟨?_, ?_⟩
  · intro h
    -- Reading ends early in three ways: no numeral, a separator in it, an infinite value.
    split at h
    · rename_i hnone
      cases h
      refine .noNumeral fun d hd => ?_
      rw [ofNumeral?_eq_some_iff.2 hd] at hnone
      exact nomatch hnone
    rename_i d hd
    have hnum := ofNumeral?_eq_some_iff.1 hd
    split_ifs at h with hsep hfin
    · cases h
      obtain ⟨c, hc, hc'⟩ := List.any_eq_true.1 hsep
      exact .separator hnum hc hc'
    · cases h
      refine .infinite hnum (fun c hc => ?_) (by simpa using hfin)
      by_contra hne
      exact hsep (List.any_eq_true.2 ⟨c, hc, by simpa using hne⟩)
  · intro h
    cases h with
    | noNumeral h =>
      have hnone : ofNumeral? cs = none := by
        rw [Option.eq_none_iff_forall_ne_some]
        exact fun d hd => h d (ofNumeral?_eq_some_iff.1 hd)
      rw [hnone]
    | separator hd hc hc' =>
      rw [ofNumeral?_eq_some_iff.2 hd]
      exact if_pos (List.any_eq_true.2 ⟨_, hc, hc'⟩)
    | infinite hd hsep hfin =>
      have hnone : ¬ cs.any isInformationSeparator = true := by simpa using hsep
      simp only [ofNumeral?_eq_some_iff.2 hd, if_neg hnone, hfin]
      rfl

/-! ### Groups -/

/-- A group has no component exactly if it holds nothing but commas. -/
theorem components_eq_nil_iff : components inside = [] ↔ ∀ c ∈ inside, c = ',' := by
  have htake : components inside = [] ↔ pieces (· = ',') inside = [] := by
    rw [components, List.take_eq_nil_iff]
    simp
  rw [htake, pieces_eq_nil_iff]
  simp only [decide_eq_true_eq]

theorem length_components_le (inside : List Char) : (components inside).length ≤ 3 := by
  rw [components, List.length_take]
  exact min_le_left _ _

theorem ofGroupValues_eq {vs : List Binary64} (h : vs.length ≤ 3) : Coordinate.ofGroupValues vs =
    ⟨vs.getD 0 (.zero false), vs.getD 2 (.zero false), vs.getD 1 (.zero false)⟩ := by
  rcases vs with _ | ⟨x, _ | ⟨z, _ | ⟨y, _ | ⟨w, vs⟩⟩⟩⟩
  · rfl
  · rfl
  · rfl
  · rfl
  · simp only [List.length_cons] at h
    omega

/-- A group is read as a coordinate exactly if its inside denotes it, wherever it stands. -/
theorem readGroup_eq_ok_iff {c : Coordinate} :
    readGroup inside juggler beat = .ok c ↔ GroupText inside c := by
  have hvs : ∀ {vs : List Binary64}, List.Forall₂ ComponentText (components inside) vs →
      Coordinate.ofGroupValues vs =
        ⟨vs.getD 0 (.zero false), vs.getD 2 (.zero false), vs.getD 1 (.zero false)⟩ := fun h =>
    ofGroupValues_eq (h.length_eq ▸ length_components_le inside)
  unfold readGroup
  refine ⟨?_, ?_⟩
  · intro h
    split_ifs at h with hempty
    obtain ⟨vs, hm, hc⟩ := bind_eq_ok_iff.1 h
    cases hc
    have hall : List.Forall₂ ComponentText (components inside) vs :=
      (mapM_eq_ok_iff.1 hm).imp fun _ _ => readComponent_eq_ok_iff.1
    -- No values would mean no component, which is refused before.
    refine ⟨vs, hall, ?_, hvs hall⟩
    rintro rfl
    exact hempty (by simp [List.forall₂_nil_right_iff.1 hall])
  · rintro ⟨vs, hall, hne, rfl⟩
    have hempty : ¬ (components inside).isEmpty = true := by
      rw [List.isEmpty_iff]
      intro hnil
      rw [hnil, List.forall₂_nil_left_iff] at hall
      exact hne hall
    rw [if_neg hempty]
    refine bind_eq_ok_iff.2 ⟨vs, mapM_eq_ok_iff.2 ?_, congrArg Except.ok (hvs hall)⟩
    exact hall.imp fun _ _ => readComponent_eq_ok_iff.2

/-- A group that is not read has no component, or the first that does not denote a number decides
the failure. -/
theorem readGroup_eq_error_iff {f : Failure} : readGroup inside juggler beat = .error f ↔
    components inside = [] ∧ f = .emptyGroup inside juggler beat ∨
      ∃ before cs after, components inside = before ++ cs :: after ∧
        (∀ ds ∈ before, ∃ v, ComponentText ds v) ∧ ComponentFault inside juggler beat cs f := by
  unfold readGroup
  refine ⟨?_, ?_⟩
  · intro h
    split_ifs at h with hempty
    · cases h
      exact .inl ⟨List.isEmpty_iff.1 hempty, rfl⟩
    rcases bind_eq_error_iff.1 h with h | ⟨_, _, h⟩
    · obtain ⟨before, cs, after, heq, hbefore, hcs⟩ := mapM_eq_error_iff.1 h
      refine .inr ⟨before, cs, after, heq, fun ds hds => ?_, readComponent_eq_error_iff.1 hcs⟩
      obtain ⟨v, hv⟩ := hbefore ds hds
      exact ⟨v, readComponent_eq_ok_iff.1 hv⟩
    · exact nomatch h
  · rintro (⟨hnil, rfl⟩ | ⟨before, cs, after, heq, hbefore, hcs⟩)
    · rw [hnil]
      rfl
    · rw [if_neg (by simp [heq])]
      refine bind_eq_error_iff.2 (.inl (mapM_eq_error_iff.2 ?_))
      refine ⟨before, cs, after, heq, fun ds hds => ?_, readComponent_eq_error_iff.2 hcs⟩
      obtain ⟨v, hv⟩ := hbefore ds hds
      exact ⟨v, readComponent_eq_ok_iff.2 hv⟩

/-- A group has the same failure at another place, apart from the place. -/
theorem readGroup_move (f g : Option Int → Option Int) (inside : List Char)
    (juggler beat : Option Int) : readGroup inside (f juggler) (g beat) =
      (readGroup inside juggler beat).mapError (.move f g) := by
  cases h : readGroup inside juggler beat with
  | ok c => exact readGroup_eq_ok_iff.2 (readGroup_eq_ok_iff.1 h)
  | error e =>
    -- Which component is at fault does not depend on the place; only the failure names it.
    refine readGroup_eq_error_iff.2 ?_
    rcases readGroup_eq_error_iff.1 h with ⟨hnil, rfl⟩ | ⟨before, cs, after, heq, hbefore, hcs⟩
    · exact .inl ⟨hnil, rfl⟩
    · exact .inr ⟨before, cs, after, heq, hbefore, hcs.move f g⟩

theorem GroupText.isFinite {c : Coordinate} (h : GroupText inside c) : c.isFinite = true := by
  obtain ⟨vs, hall, -, rfl⟩ := h
  have hmem : ∀ v ∈ vs, v.isFinite = true := by
    generalize components inside = parts at hall
    induction hall with
    | nil => simp
    | cons hv _ ih =>
      obtain ⟨_, _, _, _, hv⟩ := hv
      exact List.forall_mem_cons.2 ⟨hv, ih⟩
  have hfinite : ∀ i, (vs.getD i (.zero false)).isFinite = true := by
    intro i
    rw [List.getD_eq_getElem?_getD]
    cases hi : vs[i]? with
    | none => rfl
    | some v => exact hmem v (List.mem_of_getElem? hi)
  show ((vs.getD 0 _).isFinite && (vs.getD 2 _).isFinite && (vs.getD 1 _).isFinite) = true
  rw [hfinite 0, hfinite 2, hfinite 1]
  rfl

end HandPath.Notation
