/-!
# HandPath.Text.Pieces — cutting a text at separators

`cut` gives all pieces between separators, empty ones too, so that cutting a text in which two
others stand on either side of a separator gives the pieces of both (`cut_append`). `pieces` drops
the empty ones; nonempty pieces that are joined by a separator are found again
(`pieces_intercalate`).
-/

namespace HandPath.Text

variable (p : Char → Bool)

/-- The pieces between the characters of the class `p`; a text without any is one piece. -/
def cut : List Char → List (List Char)
  | [] => [[]]
  | c :: cs =>
    if p c then [] :: cut cs
    else match cut cs with
      | [] => [[c]]
      | w :: ws => (c :: w) :: ws

/-- The nonempty pieces between the characters of the class `p`. -/
def pieces (cs : List Char) : List (List Char) := (cut p cs).filter (!·.isEmpty)

variable {p}

theorem cut_ne_nil (cs : List Char) : cut p cs ≠ [] := by
  induction cs with
  | nil => simp [cut]
  | cons c cs ih =>
    unfold cut
    split
    · simp
    · split <;> simp

theorem cut_append {d : Char} (hd : p d = true) (a b : List Char) :
    cut p (a ++ d :: b) = cut p a ++ cut p b := by
  induction a with
  | nil => simp [cut, hd]
  | cons c a ih =>
    simp only [List.cons_append, cut, ih]
    split
    · rfl
    · cases h : cut p a with
      | nil => exact absurd h (cut_ne_nil a)
      | cons w ws => rfl

theorem pieces_append {d : Char} (hd : p d = true) (a b : List Char) :
    pieces p (a ++ d :: b) = pieces p a ++ pieces p b := by
  simp [pieces, cut_append hd]

/-- A list is parted at its first separator in one way only. -/
theorem append_cons_inj {α : Type} {sep : α} {a b r s : List α} (ha : sep ∉ a) (hb : sep ∉ b)
    (h : a ++ sep :: r = b ++ sep :: s) : a = b ∧ r = s := by
  induction a generalizing b with
  | nil =>
    cases b with
    | nil => exact ⟨rfl, (List.cons.inj h).2⟩
    | cons d b => exact absurd (List.mem_cons.2 (.inl (List.cons.inj h).1)) hb
  | cons c a ih =>
    rw [List.mem_cons, not_or] at ha
    cases b with
    | nil => exact absurd (List.cons.inj h).1.symm ha.1
    | cons d b =>
      rw [List.mem_cons, not_or] at hb
      obtain ⟨rfl, htail⟩ := List.cons.inj h
      obtain ⟨rfl, rfl⟩ := ih ha.2 hb.2 htail
      exact ⟨rfl, rfl⟩

/-- The last piece of a text goes on with the first piece of the text that follows it. -/
theorem exists_cut_append (a b : List Char) : ∃ init last first rest,
    cut p a = init ++ [last] ∧ cut p b = first :: rest ∧
      cut p (a ++ b) = init ++ (last ++ first) :: rest := by
  induction a with
  | nil =>
    obtain ⟨first, rest, hb⟩ := List.exists_cons_of_ne_nil (cut_ne_nil (p := p) b)
    exact ⟨[], [], first, rest, rfl, hb, hb⟩
  | cons c a ih =>
    obtain ⟨init, last, first, rest, ha, hb, hab⟩ := ih
    rw [List.cons_append, cut, cut, ha, hab]
    split
    · exact ⟨[] :: init, last, first, rest, rfl, hb, rfl⟩
    · cases init with
      | nil => exact ⟨[], c :: last, first, rest, rfl, hb, rfl⟩
      | cons w init => exact ⟨(c :: w) :: init, last, first, rest, rfl, hb, rfl⟩

/-- The pieces of the first part of a text are pieces of the text, but the last of them may be cut
short. -/
theorem pieces_append_cases (a b : List Char) : pieces p a = [] ∨ ∃ init last tail rest,
    pieces p a = init ++ [last] ∧ pieces p (a ++ b) = init ++ (last ++ tail) :: rest := by
  obtain ⟨init, last, first, rest, ha, -, hab⟩ := exists_cut_append (p := p) a b
  by_cases hlast : last = []
  · -- the text ends with a separator, so that its last nonempty piece is complete
    subst hlast
    have hpieces : pieces p a = init.filter (!·.isEmpty) := by simp [pieces, ha]
    rcases List.eq_nil_or_concat (pieces p a) with hnil | ⟨front, w, hw⟩
    · exact .inl hnil
    · rw [List.concat_eq_append] at hw
      refine .inr ⟨front, w, [], ((first :: rest).filter (!·.isEmpty)), hw, ?_⟩
      rw [pieces, hab, List.filter_append, ← hpieces, hw]
      simp
  · refine .inr ⟨init.filter (!·.isEmpty), last, first, rest.filter (!·.isEmpty), ?_, ?_⟩
    · simp [pieces, ha, hlast]
    · simp [pieces, hab, hlast]

theorem cut_eq_nils_iff {cs : List Char} : (∀ w ∈ cut p cs, w = []) ↔ ∀ c ∈ cs, p c = true := by
  induction cs with
  | nil => simp [cut]
  | cons c cs ih =>
    rw [cut, List.forall_mem_cons]
    by_cases hc : p c = true
    · rw [if_pos hc, List.forall_mem_cons, ih]
      exact ⟨fun h => ⟨hc, h.2⟩, fun h => ⟨rfl, h.2⟩⟩
    · rw [if_neg hc]
      refine ⟨fun h => ?_, fun h => absurd h.1 hc⟩
      cases hcut : cut p cs with
      | nil => exact absurd hcut (cut_ne_nil cs)
      | cons w ws =>
        rw [hcut] at h
        exact absurd (h (c :: w) List.mem_cons_self) (List.cons_ne_nil c w)

/-- There is no piece exactly if there are only separators. -/
theorem pieces_eq_nil_iff {cs : List Char} : pieces p cs = [] ↔ ∀ c ∈ cs, p c = true := by
  rw [← cut_eq_nils_iff, pieces, List.filter_eq_nil_iff]
  simp only [Bool.not_eq_true', List.isEmpty_eq_false_iff, Decidable.not_not]

theorem cut_of_forall_eq_false {w : List Char} (h : ∀ c ∈ w, p c = false) : cut p w = [w] := by
  induction w with
  | nil => rfl
  | cons c w ih =>
    obtain ⟨hc, hw⟩ := List.forall_mem_cons.1 h
    rw [cut, hc, ih hw]
    rfl

theorem pieces_of_forall_eq_false {w : List Char} (hne : w ≠ []) (h : ∀ c ∈ w, p c = false) :
    pieces p w = [w] := by
  simp [pieces, cut_of_forall_eq_false h, hne]

theorem forall_mem_cut {cs w : List Char} (h : w ∈ cut p cs) : ∀ c ∈ w, c ∈ cs ∧ p c = false := by
  induction cs generalizing w with
  | nil =>
    rw [cut, List.mem_singleton] at h
    simp [h]
  | cons c cs ih =>
    have hlater : ∀ v ∈ cut p cs, ∀ d ∈ v, d ∈ c :: cs ∧ p d = false := fun v hv d hd =>
      ⟨List.mem_cons_of_mem c (ih hv d hd).1, (ih hv d hd).2⟩
    rw [cut] at h
    split at h
    · rcases List.mem_cons.1 h with rfl | h
      · simp
      · exact hlater w h
    · next hc =>
      have hfirst : c ∈ c :: cs ∧ p c = false := ⟨List.mem_cons_self, by simpa using hc⟩
      cases hcut : cut p cs with
      | nil => exact absurd hcut (cut_ne_nil cs)
      | cons v vs =>
        rw [hcut] at h hlater
        rcases List.mem_cons.1 h with rfl | h
        · exact List.forall_mem_cons.2 ⟨hfirst, hlater v List.mem_cons_self⟩
        · exact hlater w (List.mem_cons_of_mem v h)

/-- A piece is not empty, and its characters are characters of the text that are no separators. -/
theorem of_mem_pieces {cs w : List Char} (h : w ∈ pieces p cs) :
    w ≠ [] ∧ ∀ c ∈ w, c ∈ cs ∧ p c = false := by
  obtain ⟨hcut, hne⟩ := List.mem_filter.1 h
  exact ⟨by simpa using hne, forall_mem_cut hcut⟩

theorem mem_intercalate {sep : List Char} {d : Char} {ws : List (List Char)}
    (h : d ∈ sep.intercalate ws) : d ∈ sep ∨ ∃ w ∈ ws, d ∈ w := by
  induction ws with
  | nil => nomatch h
  | cons w ws ih =>
    cases ws with
    | nil =>
      rw [List.intercalate_singleton] at h
      exact .inr ⟨w, List.mem_cons_self, h⟩
    | cons v vs =>
      rw [List.intercalate_cons_cons, List.append_assoc, List.mem_append, List.mem_append] at h
      rcases h with h | h | h
      · exact .inr ⟨w, List.mem_cons_self, h⟩
      · exact .inl h
      · rcases ih h with h | ⟨u, hu, hd⟩
        · exact .inl h
        · exact .inr ⟨u, List.mem_cons_of_mem w hu, hd⟩

theorem pieces_intercalate {d : Char} (hd : p d = true) {ws : List (List Char)}
    (h : ∀ w ∈ ws, w ≠ [] ∧ ∀ c ∈ w, p c = false) : pieces p ([d].intercalate ws) = ws := by
  induction ws with
  | nil => rfl
  | cons w ws ih =>
    obtain ⟨⟨hne, hw⟩, hws⟩ := List.forall_mem_cons.1 h
    cases ws with
    | nil =>
      rw [List.intercalate_singleton]
      exact pieces_of_forall_eq_false hne hw
    | cons v vs =>
      rw [List.intercalate_cons_cons, List.append_assoc, List.singleton_append, pieces_append hd,
        pieces_of_forall_eq_false hne hw, ih hws]
      rfl

end HandPath.Text
