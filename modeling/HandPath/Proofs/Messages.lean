import HandPath.Proofs.Concatenation
import HandPath.Proofs.Quoted
import Mathlib.Data.List.Nodup

/-!
# HandPath.Proofs.Messages — the message of a fault tells the fault

The first characters of a message tell its kind (`opening_injective`).  What follows them is told
apart from the place at the end: a quoted character by its quotes, the inside of a group by the
parenthesis that closes it, and the numbers of a place by the spaces after them
(`placeText_injective`).

Main statement (`fault_eq_of_message_eq`): texts whose faults have the same message have the same
fault, with its kind, its arguments, its segment and its beat.
-/

namespace HandPath

open Notation Text

/-! ### The text of integers -/

namespace Text

theorem natChars_injective {m n : ℕ} (h : natChars m = natChars n) : m = n := by
  have hread : ∀ k, Nat.ofDigitChars 10 (natChars k) 0 = k := fun _ =>
    Nat.ofDigitChars_ten_toDigits
  rw [← hread m, h, hread]

/-- The digits of a number begin with no other character. -/
theorem natChars_ne_cons {c : Char} (hc : c.isDigit = false) (n : ℕ) (cs : List Char) :
    natChars n ≠ c :: cs := by
  intro h
  have hmem : c ∈ natChars n := h ▸ List.mem_cons_self
  exact absurd (isDigit_of_mem_natChars hmem) (by simp [hc])

theorem intChars_injective {m n : ℤ} (h : intChars m = intChars n) : m = n := by
  unfold intChars at h
  -- A minus stands before negative numbers only, and no digits begin with one.
  split_ifs at h with hm hn hn
  · have hnat := natChars_injective (List.cons.inj h).2
    omega
  · exact absurd h.symm (natChars_ne_cons rfl _ _)
  · exact absurd h (natChars_ne_cons rfl _ _)
  · have hnat := natChars_injective h
    omega

theorem space_not_mem_intChars (n : ℤ) : ' ' ∉ intChars n := by
  intro h
  unfold intChars at h
  split_ifs at h
  · rcases List.mem_cons.1 h with h | h
    · exact absurd h (by decide)
    · exact absurd (isDigit_of_mem_natChars h) (by decide)
  · exact absurd (isDigit_of_mem_natChars h) (by decide)

/-- A number is told from what follows it by the space between them. -/
theorem intChars_append_inj {m n : ℤ} {r s : List Char}
    (h : intChars m ++ ' ' :: r = intChars n ++ ' ' :: s) : m = n ∧ r = s := by
  obtain ⟨hchars, hrest⟩ :=
    append_cons_inj (space_not_mem_intChars m) (space_not_mem_intChars n) h
  exact ⟨intChars_injective hchars, hrest⟩

end Text

/-! ### Places -/

theorem toList_placeText_segment (j : ℤ) :
    (placeText (some j) none).toList = "（第 ".toList ++ (intChars j ++ ' ' :: "段）".toList) := by
  simp [placeText, intText]

theorem toList_placeText_beat (j b : ℤ) : (placeText (some j) (some b)).toList = "（第 ".toList ++
    (intChars j ++ ' ' :: ("段，第 ".toList ++ (intChars (b + 1) ++ ' ' :: "拍）".toList))) := by
  simp [placeText, intText]

/-- The text of a place tells its numbers, if it names no beat without a segment. -/
theorem placeText_injective {j j' b b' : Option ℤ} (hb : j = none → b = none)
    (hb' : j' = none → b' = none)
    (h : (placeText j b).toList = (placeText j' b').toList) : j = j' ∧ b = b' := by
  have hopening : ∀ r : List Char, "（第 ".toList ++ r ≠ [] := fun r => List.cons_ne_nil _ _
  -- Without a segment the text is empty; with a beat it goes on behind the number of the segment.
  rcases j with _ | j <;> rcases j' with _ | j'
  · rw [hb rfl, hb' rfl]
    exact ⟨rfl, rfl⟩
  · rcases b' with _ | b'
    · rw [toList_placeText_segment] at h
      exact absurd h.symm (hopening _)
    · rw [toList_placeText_beat] at h
      exact absurd h.symm (hopening _)
  · rcases b with _ | b
    · rw [toList_placeText_segment] at h
      exact absurd h (hopening _)
    · rw [toList_placeText_beat] at h
      exact absurd h (hopening _)
  · rcases b with _ | b <;> rcases b' with _ | b'
    · rw [toList_placeText_segment, toList_placeText_segment] at h
      obtain ⟨rfl, -⟩ := intChars_append_inj (List.append_cancel_left h)
      exact ⟨rfl, rfl⟩
    · rw [toList_placeText_segment, toList_placeText_beat] at h
      obtain ⟨-, hrest⟩ := intChars_append_inj (List.append_cancel_left h)
      exact absurd (List.cons.inj (List.cons.inj hrest).2).1 (by decide)
    · rw [toList_placeText_beat, toList_placeText_segment] at h
      obtain ⟨-, hrest⟩ := intChars_append_inj (List.append_cancel_left h)
      exact absurd (List.cons.inj (List.cons.inj hrest).2).1 (by decide)
    · rw [toList_placeText_beat, toList_placeText_beat] at h
      obtain ⟨rfl, hrest⟩ := intChars_append_inj (List.append_cancel_left h)
      obtain ⟨hbeat, -⟩ := intChars_append_inj (List.append_cancel_left hrest)
      exact ⟨rfl, congrArg some (by omega)⟩

/-! ### Kinds -/

/-- The first characters of the messages of a kind. -/
def Kind.opening : Kind → List Char
  | emptyNotation => ['手', '部', '路', '径', '为']
  | badCharacter => ['手', '部', '路', '径', '含']
  | tooFewCoords => ['每', '一', '拍', '至', '少']
  | badEnding => ['手', '部', '路', '径', '未']
  | throwNotStart => ['出', '手', '标', '记', ' ']
  | tooManyThrows => ['同', '一', '拍', '内', '出']
  | catchAtStart => ['接', '球', '标', '记', ' ']
  | tooManyCatches => ['同', '一', '拍', '内', '接']
  | noParen => ['坐', '标', '括', '号', '缺']
  | badCoordinate => ['坐', '标', '格', '式', '非']
  | noThrowCoord => ['出', '手', '点', '（', '每']
  | noCatchCoord => ['接', '球', '点', '必', '须']

theorem opening_injective {k l : Kind} (h : k.opening = l.opening) : k = l := by
  have hnodup : (Kind.all.map Kind.opening).Nodup := by decide
  exact List.inj_on_of_nodup_map hnodup k.mem_all l.mem_all h

/-- The template of a kind begins with a text that begins as its messages do. -/
theorem exists_opening (k : Kind) : ∃ rest t,
    Catalogue.template k = .text (String.ofList (k.opening ++ rest)) :: t ∧
      k.opening.length = 5 := by
  cases k <;> exact ⟨_, _, rfl, rfl⟩

theorem take_expand (k : Kind) (arguments : List (String × String)) (rest : List Char) :
    (((Catalogue.template k).expand arguments).toList ++ rest).take 5 = k.opening := by
  obtain ⟨cs, t, hk, hlength⟩ := exists_opening k
  rw [hk, Template.expand_cons, Template.Piece.expand, String.toList_append, String.toList_ofList,
    List.append_assoc, List.append_assoc, List.take_left' hlength]

theorem toList_message (f : Fault) : f.message.toList =
    ((Catalogue.template f.violation.kind).expand f.violation.arguments).toList ++
      (placeText f.juggler f.beat).toList := String.toList_append

theorem kind_eq_of_message_eq {f g : Fault} (h : f.message.toList = g.message.toList) :
    f.violation.kind = g.violation.kind := by
  have hopening : ∀ e : Fault, e.message.toList.take 5 = e.violation.kind.opening := fun e => by
    rw [toList_message]
    exact take_expand _ _ _
  exact opening_injective (by rw [← hopening, h, hopening])

theorem Kind.space_not_mem_name (k : Kind) : ' ' ∉ k.name.toList := by
  cases k <;> decide

/-! ### Arguments -/

/-- Violations of the same kind are the same, or name two characters or two groups. -/
theorem violation_cases {v w : Violation} (h : v.kind = w.kind) : v = w ∨
    (∃ c d, v = .badCharacter c ∧ w = .badCharacter d) ∨
      ∃ i i', v = .badCoordinate i ∧ w = .badCoordinate i' := by
  cases v with
  | badCharacter c =>
    cases w with
    | badCharacter d => exact .inr (.inl ⟨c, d, rfl, rfl⟩)
    | _ => cases h
  | badCoordinate i =>
    cases w with
    | badCoordinate i' => exact .inr (.inr ⟨i, i', rfl, rfl⟩)
    | _ => cases h
  | _ =>
    left
    cases w <;> simp_all [Violation.kind]

theorem toList_message_badCharacter (c : Char) (j b : Option ℤ) :
    (Fault.message ⟨.badCharacter c, j, b⟩).toList =
      "手部路径含无法识别的字符：".toList ++ (quotedChars [c] ++ (placeText j b).toList) := by
  have hquoted : (quoted c.toString).toList = quotedChars [c] := by
    rw [quoted, String.toList_ofList]
    exact congrArg quotedChars (String.toList_singleton c)
  rw [toList_message]
  simp only [Violation.kind, Violation.arguments, Catalogue.template, Template.expand_cons,
    Template.expand_nil, Template.Piece.expand, Template.valueOf, List.lookup_cons_self,
    Option.getD_some, String.append_empty, String.toList_append, hquoted, List.append_assoc]

theorem toList_groupClosing : ")；坐标分量必须是有限数值，形如 (x,z,y)".toList =
    ')' :: "；坐标分量必须是有限数值，形如 (x,z,y)".toList := by
  simp

theorem toList_message_badCoordinate (inside : List Char) (j b : Option ℤ) :
    (Fault.message ⟨.badCoordinate inside, j, b⟩).toList =
      "坐标格式非法：(".toList ++ (inside ++ ')' ::
        ("；坐标分量必须是有限数值，形如 (x,z,y)".toList ++ (placeText j b).toList)) := by
  rw [toList_message]
  simp only [Violation.kind, Violation.arguments, Catalogue.template, Template.expand_cons,
    Template.expand_nil, Template.Piece.expand, Template.valueOf, List.lookup_cons_self,
    Option.getD_some, String.append_empty, String.toList_append, String.toList_ofList,
    toList_groupClosing, List.append_assoc, List.cons_append]

/-! ### Faults that are reported -/

/-- A fault as a text can have it: it names no beat without its segment, and no group with a closing
parenthesis inside. -/
structure Fault.Reported (f : Fault) : Prop where
  beat_eq_none : f.juggler = none → f.beat = none
  closed : ∀ inside, f.violation = .badCoordinate inside → ')' ∉ inside

theorem eq_of_message_eq {f g : Fault} (hf : f.Reported) (hg : g.Reported)
    (h : f.message.toList = g.message.toList) : f = g := by
  have hkind := kind_eq_of_message_eq h
  obtain ⟨v, j, b⟩ := f
  obtain ⟨w, j', b'⟩ := g
  -- The place stands behind the argument, which ends with a quote or with a parenthesis.
  have hparts : v = w ∧ (placeText j b).toList = (placeText j' b').toList := by
    rcases violation_cases hkind with hvw | ⟨c, d, rfl, rfl⟩ | ⟨i, i', rfl, rfl⟩
    · obtain rfl : v = w := hvw
      rw [toList_message, toList_message] at h
      exact ⟨rfl, List.append_cancel_left h⟩
    · rw [toList_message_badCharacter, toList_message_badCharacter] at h
      obtain ⟨hchars, hplace⟩ := quotedChars_append_inj (List.append_cancel_left h)
      exact ⟨congrArg Violation.badCharacter (List.cons.inj hchars).1, hplace⟩
    · rw [toList_message_badCoordinate, toList_message_badCoordinate] at h
      obtain ⟨hinside, hrest⟩ :=
        append_cons_inj (hf.closed i rfl) (hg.closed i' rfl) (List.append_cancel_left h)
      exact ⟨congrArg Violation.badCoordinate hinside, List.append_cancel_left hrest⟩
  obtain ⟨rfl, hplace⟩ := hparts
  obtain ⟨rfl, rfl⟩ := placeText_injective hf.beat_eq_none hg.beat_eq_none hplace
  rfl

namespace Notation

open Token Traversal

theorem offence_ne_badCoordinate (cur : List Token) (t : Token) (inside : List Char) :
    t.offence cur ≠ some (.badCoordinate inside) := by
  cases t <;> unfold Token.offence <;> split_ifs <;> simp

/-- A group that a fault of a segment names is one of its tokens, so it ends at its first closing
parenthesis. -/
theorem SegmentFault.closed {juggler : ℤ} {cs inside : List Char} {j b : Option ℤ}
    (h : SegmentFault juggler cs (.mistake (.badCoordinate inside) j b)) : ')' ∉ inside := by
  generalize he : Failure.mistake (.badCoordinate inside) j b = e at h
  -- Only the check of coordinates names a group, which then is a token of the text.
  cases h with
  | @lexical ts rest f hlex hstuck =>
    cases f with
    | badCharacter c => cases he
    | openGroup => cases he
  | ending => cases he
  | mark _ _ hfirst =>
    obtain ⟨before, t, after, -, -, ht⟩ := hfirst
    obtain ⟨v, hv, rfl⟩ := Option.map_eq_some_iff.1 ht
    cases he
    exact absurd hv (offence_ne_badCoordinate _ t inside)
  | coordinate hlex _ _ hfirst =>
    obtain ⟨before, t, after, rfl, -, ht⟩ := hfirst
    cases t with
    | group inside' =>
      have hread := coordinateCheck_group.1 ht
      rcases readGroup_error_cases hread with hf | ⟨-, hf⟩ | ⟨part, -, hf⟩
      · rw [hf] at he
        cases he
        exact closed_of_lexes hlex (.group inside) (by simp)
      · rw [hf] at he
        cases he
      · rw [hf] at he
        cases he
    | beatEnd =>
      rw [coordinateCheck] at ht
      subst he
      split_ifs at ht
      · cases ht
      · cases ht
    | blank => cases ht
    | throwMark => cases ht
    | catchMark => cases ht

end Notation

theorem reported_of_ofNotation {text : String} {f : Fault}
    (h : Pattern.ofNotation text = .error (.fault f)) : f.Reported := by
  rw [Pattern.ofNotation, result_eq_error_iff, run_failure_eq_some_iff] at h
  obtain ⟨v, j, b⟩ := f
  rcases h with ⟨-, hf⟩ | ⟨before, cs, after, -, -, hcs⟩
  · cases hf
    exact ⟨fun _ => rfl, fun _ hv => by cases hv⟩
  · refine ⟨fun hj => ?_, fun inside hv => ?_⟩
    · cases hcs.juggler_eq.symm.trans hj
    · cases hv
      exact hcs.closed

/-- **Messages tell faults apart.**  If the faults of two texts have the same message, they are the
same fault: their kind, the character or the group that they name, their segment and their beat are
the same. -/
theorem Pattern.fault_eq_of_message_eq {a b : String} {f g : Fault}
    (hf : Pattern.ofNotation a = .error (.fault f))
    (hg : Pattern.ofNotation b = .error (.fault g)) (h : f.message = g.message) : f = g :=
  eq_of_message_eq (reported_of_ofNotation hf) (reported_of_ofNotation hg)
    (congrArg String.toList h)

/-- A group may hold the text of a place: the place in the message is the one behind it. -/
theorem fault_eq_of_place_in_group : ∃ f g : Fault,
    Pattern.ofNotation "(1)(2).|(（第 9 段）)(1)." = .error (.fault f) ∧
      Pattern.ofNotation " t(1)-(3).!!T(（第 9 段）)-." = .error (.fault g) ∧
      f.message = g.message ∧ f = g := by
  have hf : Pattern.ofNotation "(1)(2).|(（第 9 段）)(1)." =
      .error (.mistake (.badCoordinate ['（', '第', ' ', '9', ' ', '段', '）']) (some 2) (some 0)) :=
    rfl
  have hg : Pattern.ofNotation " t(1)-(3).!!T(（第 9 段）)-." =
      .error (.mistake (.badCoordinate ['（', '第', ' ', '9', ' ', '段', '）']) (some 2) (some 0)) :=
    rfl
  exact ⟨_, _, hf, hg, rfl, Pattern.fault_eq_of_message_eq hf hg rfl⟩

end HandPath
