import HandPath.Proofs.Group
import HandPath.Proofs.Nearest

/-!
# HandPath.Proofs.Reading — a coordinate group is read exactly

What a group denotes, said in rational numbers: `InRange part` says of a part between commas that it
is a numeral whose value does not overflow, and `ReadAs part v` that `v` is the number nearest to
that value.  A part denotes a number in the sense of the grammar exactly if it is read as that
number (`componentText_iff`), and one that is not in range fails in one of two ways
(`componentFault_of_not_inRange`).

Main statement (`readGroup_outcome`): which groups have no part, which are read and as what, and
which part of the others decides the failure.
-/

namespace HandPath.Notation

open Text Decimal

/-- The nonempty parts of a group between its commas. -/
def parts (inside : List Char) : List (List Char) := (inside.splitOn ',').filter (!·.isEmpty)

/-- A numeral between white space, whose value is below the middle between the greatest number of
the format and the next power of two. -/
def InRange (part : List Char) : Prop :=
  ∃ d, NumeralText part d ∧ (∀ c ∈ part, isInformationSeparator c = false) ∧
    |d.toRat| < 2 ^ 1024 - 2 ^ 970

/-- The part is in range and `v` is nearest to its value, with the sign that is written. -/
def ReadAs (part : List Char) (v : Binary64) : Prop :=
  ∃ d, NumeralText part d ∧ (∀ c ∈ part, isInformationSeparator c = false) ∧
    |d.toRat| < 2 ^ 1024 - 2 ^ 970 ∧ v.IsNearest d.negative d.toRat

/-- A numeral that an information separator stands next to. -/
def HoldsSeparator (part : List Char) : Prop :=
  (∃ d, NumeralText part d) ∧ ∃ c ∈ part, isInformationSeparator c = true

variable {inside part : List Char} {juggler beat : Option Int}

/-! ### Parts -/

theorem cut_eq_splitOnP (p : Char → Bool) (cs : List Char) : cut p cs = cs.splitOnP p := by
  induction cs with
  | nil => rw [List.splitOnP_nil, cut]
  | cons c cs ih =>
    rw [cut, List.splitOnP_cons_eq_if_modifyHead, ih]
    cases h : cs.splitOnP p with
    | nil => exact absurd (ih.trans h) (cut_ne_nil cs)
    | cons w ws => rfl

theorem components_eq (inside : List Char) : components inside = (parts inside).take 3 := by
  rw [components, pieces, cut_eq_splitOnP]
  rfl

theorem componentText_iff {v : Binary64} : ComponentText part v ↔ ReadAs part v := by
  refine ⟨?_, ?_⟩
  · rintro ⟨d, hd, hsep, rfl, hfin⟩
    exact ⟨d, hd, hsep, (isFinite_toBinary64_iff d).1 hfin, isNearest_toBinary64 hfin⟩
  · rintro ⟨d, hd, hsep, hlt, hnear⟩
    have hfin := (isFinite_toBinary64_iff d).2 hlt
    exact ⟨d, hd, hsep, (isNearest_toBinary64 hfin).unique hnear, hnear.isFinite⟩

theorem inRange_iff : InRange part ↔ ∃ v, ReadAs part v := by
  refine ⟨?_, ?_⟩
  · rintro ⟨d, hd, hsep, hlt⟩
    exact ⟨_, d, hd, hsep, hlt, isNearest_toBinary64 ((isFinite_toBinary64_iff d).2 hlt)⟩
  · rintro ⟨v, d, hd, hsep, hlt, -⟩
    exact ⟨d, hd, hsep, hlt⟩

theorem componentFault_of_not_inRange (h : ¬ InRange part) :
    (HoldsSeparator part → ComponentFault inside juggler beat part (.unreadableNumeral part)) ∧
      (¬ HoldsSeparator part → ComponentFault inside juggler beat part
        (.mistake (.badCoordinate inside) juggler beat)) := by
  refine ⟨?_, fun hnot => ?_⟩
  · rintro ⟨⟨d, hd⟩, c, hc, hsep⟩
    exact .separator hd hc hsep
  · by_cases hnumeral : ∃ d, NumeralText part d
    · obtain ⟨d, hd⟩ := hnumeral
      have hsep : ∀ c ∈ part, isInformationSeparator c = false := fun c hc => by
        by_contra hne
        exact hnot ⟨⟨d, hd⟩, c, hc, by simpa using hne⟩
      refine .infinite hd hsep ?_
      by_contra hfin
      exact h ⟨d, hd, hsep, (isFinite_toBinary64_iff d).1 (by simpa using hfin)⟩
    · exact .noNumeral (not_exists.1 hnumeral)

/-! ### Groups -/

theorem coordinate_eq_iff {c : Coordinate} {x y z : Binary64} :
    c = ⟨x, y, z⟩ ↔ [c.x, c.z, c.y] = [x, z, y] := by
  obtain ⟨x', y', z'⟩ := c
  simp only [Coordinate.mk.injEq, List.cons.injEq, and_true]
  tauto

/-- At most three numbers, with zeros for those left out. -/
theorem append_replicate_eq {vs : List Binary64} (h : vs.length ≤ 3) :
    vs ++ List.replicate (3 - vs.length) (.zero false) =
      [vs.getD 0 (.zero false), vs.getD 1 (.zero false), vs.getD 2 (.zero false)] := by
  rcases vs with _ | ⟨x, _ | ⟨z, _ | ⟨y, _ | ⟨w, vs⟩⟩⟩⟩
  · rfl
  · rfl
  · rfl
  · rfl
  · simp only [List.length_cons] at h
    omega

theorem groupText_iff {c : Coordinate} : GroupText inside c ↔
    ∃ vs, vs ≠ [] ∧ List.Forall₂ ReadAs ((parts inside).take 3) vs ∧
      [c.x, c.z, c.y] = vs ++ List.replicate (3 - vs.length) (.zero false) := by
  have hread : ComponentText = ReadAs := funext₂ fun _ _ => propext componentText_iff
  have hlength : ∀ {vs}, List.Forall₂ ReadAs ((parts inside).take 3) vs → vs.length ≤ 3 :=
    fun h => h.length_eq ▸ List.length_take_le 3 _
  rw [GroupText, hread, components_eq]
  refine exists_congr fun vs => ⟨?_, ?_⟩
  · rintro ⟨hvs, hne, hc⟩
    rw [append_replicate_eq (hlength hvs)]
    exact ⟨hne, hvs, coordinate_eq_iff.1 hc⟩
  · rintro ⟨hne, hvs, hc⟩
    rw [append_replicate_eq (hlength hvs)] at hc
    exact ⟨hvs, hne, coordinate_eq_iff.2 hc⟩

theorem readGroup_eq_emptyGroup_iff {i : List Char} {j b : Option Int} :
    readGroup inside juggler beat = .error (.emptyGroup i j b) ↔
      parts inside = [] ∧ i = inside ∧ j = juggler ∧ b = beat := by
  rw [readGroup_eq_error_iff, components_eq, List.take_eq_nil_iff]
  refine ⟨?_, ?_⟩
  · rintro (⟨hnil, h⟩ | ⟨before, cs, after, -, -, h⟩)
    · cases h
      exact ⟨hnil.resolve_left (by decide), rfl, rfl, rfl⟩
    · cases h
  · rintro ⟨hnil, rfl, rfl, rfl⟩
    exact .inl ⟨.inr hnil, rfl⟩

theorem exists_readGroup_iff (hne : parts inside ≠ []) :
    (∃ c, readGroup inside juggler beat = .ok c) ↔
      ∀ part ∈ (parts inside).take 3, InRange part := by
  simp only [readGroup_eq_ok_iff, inRange_iff]
  rw [← Traversal.exists_forall₂_iff]
  refine ⟨?_, ?_⟩
  · rintro ⟨c, hc⟩
    obtain ⟨vs, -, hvs, -⟩ := groupText_iff.1 hc
    exact ⟨vs, hvs⟩
  · rintro ⟨vs, hvs⟩
    have hread := hvs.imp fun _ _ => componentText_iff.2
    rw [← components_eq] at hread
    refine ⟨_, vs, hread, ?_, rfl⟩
    rintro rfl
    have hnil := List.take_eq_nil_iff.1 (List.forall₂_nil_right_iff.1 hvs)
    exact hne (hnil.resolve_left (by decide))

theorem readGroup_of_not_inRange {before after : List (List Char)}
    (hparts : (parts inside).take 3 = before ++ part :: after)
    (hbefore : ∀ p ∈ before, InRange p) (h : ¬ InRange part) :
    (HoldsSeparator part → readGroup inside juggler beat = .error (.unreadableNumeral part)) ∧
      (¬ HoldsSeparator part → readGroup inside juggler beat =
        .error (.mistake (.badCoordinate inside) juggler beat)) := by
  have hdecides : ∀ {f}, ComponentFault inside juggler beat part f →
      readGroup inside juggler beat = .error f := by
    intro f hf
    refine readGroup_eq_error_iff.2 (.inr ⟨before, part, after, ?_, fun p hp => ?_, hf⟩)
    · rw [components_eq, hparts]
    · obtain ⟨v, hv⟩ := inRange_iff.1 (hbefore p hp)
      exact ⟨v, componentText_iff.2 hv⟩
  exact ⟨fun hsep => hdecides ((componentFault_of_not_inRange h).1 hsep),
    fun hnot => hdecides ((componentFault_of_not_inRange h).2 hnot)⟩

/-- **Coordinate groups are read exactly.**  Of a group count the first three of its nonempty parts.
Without a part its failure is that it is empty, and no other group fails so.  With parts it is read
exactly if those that count are in range; the numbers nearest to their values, a tie going to the
even one, are then x, z and y in this order, and those left out are zero.  Otherwise the first of
them that is not in range decides the failure. -/
theorem readGroup_outcome (inside : List Char) (juggler beat : Option Int) :
    (∀ i j b, readGroup inside juggler beat = .error (.emptyGroup i j b) ↔
      parts inside = [] ∧ i = inside ∧ j = juggler ∧ b = beat) ∧
    (parts inside ≠ [] → ((∃ c, readGroup inside juggler beat = .ok c) ↔
      ∀ part ∈ (parts inside).take 3, InRange part)) ∧
    (∀ c, readGroup inside juggler beat = .ok c ↔
      ∃ vs, vs ≠ [] ∧ List.Forall₂ ReadAs ((parts inside).take 3) vs ∧
        [c.x, c.z, c.y] = vs ++ List.replicate (3 - vs.length) (.zero false)) ∧
    ∀ before part after, (parts inside).take 3 = before ++ part :: after →
      (∀ p ∈ before, InRange p) → ¬ InRange part →
        (HoldsSeparator part → readGroup inside juggler beat = .error (.unreadableNumeral part)) ∧
        (¬ HoldsSeparator part →
          readGroup inside juggler beat = .error (.mistake (.badCoordinate inside) juggler beat)) :=
  ⟨fun _ _ _ => readGroup_eq_emptyGroup_iff, exists_readGroup_iff,
    fun _ => readGroup_eq_ok_iff.trans groupText_iff,
    fun _ _ _ hparts hbefore h => readGroup_of_not_inRange hparts hbefore h⟩

/-- A zero with its sign, an empty part, a tie, and a fourth part, which does not count. -/
example : readGroup "-0,,9007199254740993,3.,!".toList none none =
    .ok ⟨.zero true, .ofParts false 6755399441055744 (-51), .ofParts false 4503599627370496 1⟩ :=
  rfl

end HandPath.Notation
