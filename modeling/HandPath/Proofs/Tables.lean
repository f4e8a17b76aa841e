import HandPath.Message.Catalogue
import HandPath.Proofs.Traversal
import Mathlib.Data.List.Perm.Subperm

/-!
# HandPath.Proofs.Tables — which tables of messages are read

An entry is read if its key is that of a kind and its value a text that is not blank
(`readEntry_eq_ok_iff`); else it has one fault (`readEntry_eq_error_iff`).  The templates that are
read are the entries of the file as they stand in it (`mapM_readEntry_eq_ok_iff`).

Main statement (`ofParsed_outcome`): a parsed file is read exactly if it holds a table with a
template for every kind and nothing else, and otherwise its error is the fault that `TableFault`
tells.
-/

namespace HandPath

open Traversal

namespace Kind

theorem nodup_all : all.Nodup := by decide

theorem ofName?_eq_some_iff {s : String} {k : Kind} : ofName? s = some k ↔ s = k.name := by
  constructor
  · intro h
    have hname := List.find?_some h
    exact (beq_iff_eq.1 hname).symm
  · rintro rfl
    exact ofName?_name k

end Kind

namespace Catalogue

/-! ### What a table may hold -/

/-- A text of white space only. -/
def IsBlankText (s : String) : Prop := ∀ c ∈ s.toList, Text.isBlank c = true

/-- The entry for a kind. -/
def entryOf (p : Kind × String) : Key × Parsed := (.text p.1.name, .text p.2)

/-- The entries of the mapping that a parsed file has for its messages. -/
def Holds (d : Parsed) (entries : List (Key × Parsed)) : Prop :=
  ∃ members, d = .mapping members ∧ members.lookup (.text "errors") = some (.mapping entries)

/-- What is wrong with an entry: its key is no kind, or else its value is no text or a blank one. -/
inductive EntryFault : Key × Parsed → TableError → Prop
  | unknownKind {key value} : (∀ k : Kind, key ≠ .text k.name) →
      EntryFault (key, value) (.unknownKind key)
  | blankTemplate {k : Kind} {value} : (∀ s, value = .text s → IsBlankText s) →
      EntryFault (.text k.name, value) (.blankTemplate k)

/-- What is wrong with a parsed file: it holds no table, or the first bad entry, or else the kinds
that no entry is for, in the order of all kinds. -/
inductive TableFault (d : Parsed) : TableError → Prop
  | noTable : (∀ entries, ¬ Holds d entries) → TableFault d .noTable
  | entry {table : List (Kind × String)} {x after e} : Holds d (table.map entryOf ++ x :: after) →
      (∀ p ∈ table, ¬ IsBlankText p.2) → EntryFault x e → TableFault d e
  | missingKinds {table : List (Kind × String)} {ks} : Holds d (table.map entryOf) →
      (∀ p ∈ table, ¬ IsBlankText p.2) → ks ≠ [] → ks.Sublist Kind.all →
      (∀ k, k ∈ ks ↔ k ∉ table.map Prod.fst) → TableFault d (.missingKinds ks)

/-! ### Entries -/

theorem kind?_eq_some_iff {key : Key} {k : Kind} : key.kind? = some k ↔ key = .text k.name := by
  cases key with
  | text s => rw [Key.kind?, Kind.ofName?_eq_some_iff, Key.text.injEq]
  | other shown => exact iff_of_false (fun h => nomatch h) (fun h => nomatch h)

theorem kind?_eq_none_iff {key : Key} : key.kind? = none ↔ ∀ k : Kind, key ≠ .text k.name := by
  rw [Option.eq_none_iff_forall_ne_some]
  simp only [ne_eq, kind?_eq_some_iff]

theorem templateText?_eq_some_iff {value : Parsed} {s : String} :
    templateText? value = some s ↔ value = .text s ∧ ¬ IsBlankText s := by
  cases value with
  | text s' =>
    have hblank : s'.toList.all Text.isBlank = true ↔ IsBlankText s' := List.all_eq_true
    rw [templateText?, Parsed.text.injEq]
    split_ifs with h
    · refine iff_of_false (fun h => nomatch h) ?_
      rintro ⟨rfl, hs⟩
      exact hs (hblank.1 h)
    · rw [Option.some.injEq]
      constructor
      · rintro rfl
        exact ⟨rfl, mt hblank.2 h⟩
      · exact And.left
  | mapping entries => exact iff_of_false (fun h => nomatch h) (fun h => nomatch h.1)
  | other => exact iff_of_false (fun h => nomatch h) (fun h => nomatch h.1)

theorem templateText?_eq_none_iff {value : Parsed} :
    templateText? value = none ↔ ∀ s, value = .text s → IsBlankText s := by
  rw [Option.eq_none_iff_forall_ne_some]
  simp only [ne_eq, templateText?_eq_some_iff, not_and, not_not]

theorem readEntry_eq_ok_iff {x : Key × Parsed} {p : Kind × String} :
    readEntry x = .ok p ↔ x = entryOf p ∧ ¬ IsBlankText p.2 := by
  obtain ⟨key, value⟩ := x
  obtain ⟨k, s⟩ := p
  have hentry : readEntry (key, value) = .ok (k, s) ↔
      key.kind? = some k ∧ templateText? value = some s := by
    unfold readEntry
    cases key.kind? <;> cases templateText? value <;> simp
  rw [hentry, kind?_eq_some_iff, templateText?_eq_some_iff, entryOf, Prod.mk.injEq, and_assoc]

theorem entryFault_iff {key : Key} {value : Parsed} {e : TableError} :
    EntryFault (key, value) e ↔ key.kind? = none ∧ e = .unknownKind key ∨
      ∃ k, key.kind? = some k ∧ templateText? value = none ∧ e = .blankTemplate k := by
  constructor
  · intro h
    cases h with
    | unknownKind hkey => exact .inl ⟨kind?_eq_none_iff.2 hkey, rfl⟩
    | blankTemplate hvalue =>
      exact .inr ⟨_, kind?_eq_some_iff.2 rfl, templateText?_eq_none_iff.2 hvalue, rfl⟩
  · rintro (⟨hkey, rfl⟩ | ⟨k, hkey, hvalue, rfl⟩)
    · exact .unknownKind (kind?_eq_none_iff.1 hkey)
    · obtain rfl := kind?_eq_some_iff.1 hkey
      exact .blankTemplate (templateText?_eq_none_iff.1 hvalue)

theorem readEntry_eq_error_iff {x : Key × Parsed} {e : TableError} :
    readEntry x = .error e ↔ EntryFault x e := by
  obtain ⟨key, value⟩ := x
  rw [entryFault_iff]
  unfold readEntry
  cases key.kind? <;> cases templateText? value <;> simp [eq_comm]

/-! ### Tables -/

theorem Holds.unique {d : Parsed} {entries entries' : List (Key × Parsed)} (h : Holds d entries)
    (h' : Holds d entries') : entries = entries' := by
  obtain ⟨members, rfl, hentries⟩ := h
  obtain ⟨members', hmembers, hentries'⟩ := h'
  cases hmembers
  rw [hentries] at hentries'
  cases hentries'
  rfl

theorem get?_eq_some_iff {d : Parsed} {entries : List (Key × Parsed)} :
    d.get? (.text "errors") = some (.mapping entries) ↔ Holds d entries := by
  cases d with
  | mapping members => simp [Parsed.get?, Holds]
  | text s => simp [Parsed.get?, Holds]
  | other => simp [Parsed.get?, Holds]

/-- The entries that are read, in order, are the entries for the templates. -/
theorem mapM_readEntry_eq_ok_iff {entries : List (Key × Parsed)} {table : List (Kind × String)} :
    entries.mapM readEntry = .ok table ↔
      entries = table.map entryOf ∧ ∀ p ∈ table, ¬ IsBlankText p.2 := by
  simp only [mapM_eq_ok_iff, readEntry_eq_ok_iff]
  induction table generalizing entries with
  | nil => simp
  | cons p table ih =>
    rw [List.forall₂_cons_right_iff, List.map_cons, List.forall_mem_cons]
    constructor
    · rintro ⟨x, entries, ⟨rfl, hp⟩, htable, rfl⟩
      obtain ⟨rfl, hgood⟩ := ih.1 htable
      exact ⟨rfl, hp, hgood⟩
    · rintro ⟨rfl, hp, hgood⟩
      exact ⟨entryOf p, _, ⟨rfl, hp⟩, ih.2 ⟨rfl, hgood⟩, rfl⟩

/-- The first bad entry decides. -/
theorem mapM_readEntry_eq_error_iff {entries : List (Key × Parsed)} {e : TableError} :
    entries.mapM readEntry = .error e ↔ ∃ (table : List (Kind × String)) (x : _) (after : _),
      entries = table.map entryOf ++ x :: after ∧ (∀ p ∈ table, ¬ IsBlankText p.2) ∧
        EntryFault x e := by
  simp only [mapM_eq_error_iff, readEntry_eq_error_iff]
  constructor
  · rintro ⟨before, x, after, rfl, hbefore, hx⟩
    obtain ⟨table, htable⟩ := exists_forall₂_iff.2 hbefore
    obtain ⟨rfl, hgood⟩ := mapM_readEntry_eq_ok_iff.1 (mapM_eq_ok_iff.2 htable)
    exact ⟨table, x, after, rfl, hgood, hx⟩
  · rintro ⟨table, x, after, rfl, hgood, hx⟩
    have htable := mapM_eq_ok_iff.1 (mapM_readEntry_eq_ok_iff.2 ⟨rfl, hgood⟩)
    exact ⟨table.map entryOf, x, after, rfl, exists_forall₂_iff.1 ⟨table, htable⟩, hx⟩

theorem mem_missingKinds {table : List (Kind × String)} {k : Kind} :
    k ∈ missingKinds table ↔ k ∉ table.map Prod.fst := by
  rw [missingKinds, List.mem_filter, Bool.not_eq_true', ← Bool.not_eq_true, List.contains_iff_mem]
  exact and_iff_right k.mem_all

theorem missingKinds_eq_nil_iff {table : List (Kind × String)} :
    missingKinds table = [] ↔ ∀ k, k ∈ table.map Prod.fst := by
  simp only [List.eq_nil_iff_forall_not_mem, mem_missingKinds, not_not]

/-- The missing kinds are told by which they are and by the order of all kinds. -/
theorem eq_missingKinds_iff {table : List (Kind × String)} {ks : List Kind} :
    ks = missingKinds table ↔ ks.Sublist Kind.all ∧ ∀ k, k ∈ ks ↔ k ∉ table.map Prod.fst := by
  constructor
  · rintro rfl
    exact ⟨List.filter_sublist, fun k => mem_missingKinds⟩
  · rintro ⟨hsublist, hmem⟩
    have hfilter : (missingKinds table).Sublist Kind.all := List.filter_sublist
    -- Sublists of a list without repetition are the same if they have the same members.
    refine (Kind.nodup_all.perm_iff_eq_of_sublist hsublist hfilter).1 ?_
    refine (List.perm_ext_iff_of_nodup (Kind.nodup_all.sublist hsublist)
      (Kind.nodup_all.sublist hfilter)).2 fun k => ?_
    rw [hmem, mem_missingKinds]

theorem ofParsed_of_holds {d : Parsed} {entries : List (Key × Parsed)} (h : Holds d entries) :
    ofParsed d = entries.mapM readEntry >>= fun table =>
      if missingKinds table = [] then .ok table
      else .error (.missingKinds (missingKinds table)) := by
  simp only [ofParsed, get?_eq_some_iff.2 h, List.isEmpty_iff]
  rfl

theorem ofParsed_of_not_holds {d : Parsed} (h : ∀ entries, ¬ Holds d entries) :
    ofParsed d = .error .noTable := by
  unfold ofParsed
  split
  · next entries hentries => exact absurd (get?_eq_some_iff.1 hentries) (h entries)
  · rfl

theorem ofParsed_eq_ok_iff {d : Parsed} {table : List (Kind × String)} :
    ofParsed d = .ok table ↔ Holds d (table.map entryOf) ∧ (∀ p ∈ table, ¬ IsBlankText p.2) ∧
      ∀ k, k ∈ table.map Prod.fst := by
  by_cases h : ∃ entries, Holds d entries
  · obtain ⟨entries, h⟩ := h
    rw [ofParsed_of_holds h, bind_eq_ok_iff]
    constructor
    · rintro ⟨table', htable, hread⟩
      split_ifs at hread with hmissing
      obtain rfl := Except.ok.inj hread
      obtain ⟨rfl, hgood⟩ := mapM_readEntry_eq_ok_iff.1 htable
      exact ⟨h, hgood, missingKinds_eq_nil_iff.1 hmissing⟩
    · rintro ⟨htable, hgood, hall⟩
      obtain rfl := h.unique htable
      exact ⟨table, mapM_readEntry_eq_ok_iff.2 ⟨rfl, hgood⟩,
        if_pos (missingKinds_eq_nil_iff.2 hall)⟩
  · rw [ofParsed_of_not_holds (not_exists.1 h)]
    exact iff_of_false (fun hread => nomatch hread) fun htable => h ⟨_, htable.1⟩

theorem tableFault_iff_of_holds {d : Parsed} {entries : List (Key × Parsed)} {e : TableError}
    (h : Holds d entries) : TableFault d e ↔ entries.mapM readEntry = .error e ∨
      ∃ table, entries.mapM readEntry = .ok table ∧ missingKinds table ≠ [] ∧
        e = .missingKinds (missingKinds table) := by
  constructor
  · intro hfault
    cases hfault with
    | noTable hno => exact absurd h (hno entries)
    | @entry table x after e htable hgood hx =>
      obtain rfl := h.unique htable
      exact .inl (mapM_readEntry_eq_error_iff.2 ⟨table, x, after, rfl, hgood, hx⟩)
    | @missingKinds table ks htable hgood hne hsublist hmem =>
      obtain rfl := h.unique htable
      obtain rfl := eq_missingKinds_iff.2 ⟨hsublist, hmem⟩
      exact .inr ⟨table, mapM_readEntry_eq_ok_iff.2 ⟨rfl, hgood⟩, hne, rfl⟩
  · rintro (hentry | ⟨table, htable, hne, rfl⟩)
    · obtain ⟨table, x, after, rfl, hgood, hx⟩ := mapM_readEntry_eq_error_iff.1 hentry
      exact .entry h hgood hx
    · obtain ⟨rfl, hgood⟩ := mapM_readEntry_eq_ok_iff.1 htable
      obtain ⟨hsublist, hmem⟩ := eq_missingKinds_iff.1 (rfl : missingKinds table = _)
      exact .missingKinds h hgood hne hsublist hmem

theorem tableFault_iff_of_not_holds {d : Parsed} {e : TableError}
    (h : ∀ entries, ¬ Holds d entries) : TableFault d e ↔ e = .noTable := by
  constructor
  · intro hfault
    cases hfault with
    | noTable => rfl
    | entry htable => exact absurd htable (h _)
    | missingKinds htable => exact absurd htable (h _)
  · rintro rfl
    exact .noTable h

theorem ofParsed_eq_error_iff {d : Parsed} {e : TableError} :
    ofParsed d = .error e ↔ TableFault d e := by
  by_cases h : ∃ entries, Holds d entries
  · obtain ⟨entries, h⟩ := h
    rw [ofParsed_of_holds h, bind_eq_error_iff, tableFault_iff_of_holds h]
    refine or_congr_right (exists_congr fun table => and_congr_right fun _ => ?_)
    split_ifs with hmissing
    · exact iff_of_false (fun hread => nomatch hread) fun hne => hne.1 hmissing
    · rw [Except.error.injEq, eq_comm, and_iff_right hmissing]
  · have hno := not_exists.1 h
    rw [ofParsed_of_not_holds hno, tableFault_iff_of_not_holds hno, Except.error.injEq, eq_comm]

/-- **Which tables are read.**  A parsed file is read if and only if the entries that it holds for
messages are those for a list of kinds with their templates, in which no template is blank and every
kind occurs; and what is read is that list, in the order of the file.  Otherwise the error is the
fault that the file has: that it holds no such mapping; else what is wrong with the first bad entry,
and with its key before its template; else the kinds that are missing. -/
theorem ofParsed_outcome (d : Parsed) :
    (∀ table, ofParsed d = .ok table ↔ Holds d (table.map entryOf) ∧
      (∀ p ∈ table, ¬ IsBlankText p.2) ∧ ∀ k, k ∈ table.map Prod.fst) ∧
    ∀ e, ofParsed d = .error e ↔ TableFault d e :=
  ⟨fun _ => ofParsed_eq_ok_iff, fun _ => ofParsed_eq_error_iff⟩

/-! ### The packaged table -/

theorem not_isBlankText_source (k : Kind) : ¬ IsBlankText (template k).source := by
  have hfirst : ∃ c cs t, template k = .text (String.ofList (c :: cs)) :: t ∧
      Text.isBlank c = false := by
    cases k <;> exact ⟨_, _, _, rfl, rfl⟩
  obtain ⟨c, cs, t, hk, hc⟩ := hfirst
  intro h
  have hmem : c ∈ (template k).source.toList := by
    rw [hk, Template.source, List.map_cons, String.join_cons, String.toList_append,
      Template.Piece.source, String.toList_ofList]
    exact List.mem_append_left _ List.mem_cons_self
  rw [h c hmem] at hc
  nomatch hc

/-- The packaged table is read, and gives the template of every kind. -/
theorem ofDocument_packaged :
    ofDocument packaged = .ok (Kind.all.map fun k => (k, (template k).source)) := by
  refine ofParsed_eq_ok_iff.2 ⟨⟨_, rfl, rfl⟩, fun p hp => ?_, fun k => ?_⟩
  · obtain ⟨k, -, rfl⟩ := List.mem_map.1 hp
    exact not_isBlankText_source k
  · rw [List.map_map]
    exact List.mem_map.2 ⟨k, k.mem_all, rfl⟩

end Catalogue

end HandPath
