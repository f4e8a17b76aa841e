import HandPath.Proofs.Lookup
import HandPath.Service.Respond
import Mathlib.Tactic.SplitIfs

/-!
# HandPath.Proofs.Agreement — a coordinate is found in the view of its pattern

A request to compile a text is answered with the view of the whole pattern, a question for a
coordinate with one point of it.  `Document.get?` follows a path into a document; what it finds in
the view of a pattern is what the pattern has there (`get?_view`, `get?_indexedView`,
`get?_beatView`).  `coordinateIn` answers a question from a view alone.

Main statement (`answers_agree`): both requests are refused alike, with the particulars of the
fault, and if the text compiles, the question is answered as it is from the view.
-/

namespace HandPath

/-! ### Paths into documents -/

namespace Document

/-- From a document to one of its parts. -/
inductive Step where
  | member (name : String)
  | item (i : Int)
deriving DecidableEq, Repr

/-- The part that a path leads to, if there is one; items are counted from zero. -/
def get? : List Step → Document → Option Document
  | [], d => some d
  | .member name :: path, .object members => (members.lookup name).bind (get? path)
  | .item i :: path, .array items =>
    if i < 0 then none else (items[i.toNat]?).bind (get? path)
  | _, _ => none

/-- The integer that a path leads to. -/
def integerAt? (path : List Step) (d : Document) : Option Int :=
  match d.get? path with
  | some (.integer n) => some n
  | _ => none

theorem get?_item {items : List Document} {i : Nat} {d : Document} (h : items[i]? = some d)
    (path : List Step) : get? (.item i :: path) (.array items) = d.get? path := by
  rw [get?, if_neg (by omega), Int.toNat_natCast, h, Option.bind_some]

end Document

open Document

/-! ### Views of patterns -/

theorem get?_view {p : Pattern} {i : Nat} {g : Segment} (h : p.segments[i]? = some g)
    (path : List Step) :
    p.view.get? (.member "segments" :: .item i :: path) = (g.indexedView i).get? path := by
  have hitem : (p.segments.mapIdx Segment.indexedView)[i]? = some (g.indexedView i) := by
    rw [List.getElem?_mapIdx, h, Option.map_some]
  exact get?_item hitem path

theorem integerAt?_view (p : Pattern) :
    p.view.integerAt? [.member "jugglers"] = some (p.jugglers : Int) := rfl

theorem integerAt?_indexedView (g : Segment) (i : Nat) :
    (g.indexedView i).integerAt? [.member "period"] = some (g.period : Int) := rfl

theorem get?_indexedView {g : Segment} {n : Int} {b : Beat} (h : g.beat? n = some b) (i : Nat)
    (path : List Step) :
    (g.indexedView i).get? (.member "beats" :: .item n :: path) = b.view.get? path := by
  unfold Segment.beat? at h
  split_ifs at h with hn
  obtain ⟨k, rfl⟩ := Int.eq_ofNat_of_zero_le (Int.not_lt.1 hn)
  have hitem : (g.beats.map Beat.view)[k]? = some b.view := by
    rw [List.getElem?_map, ← Int.toNat_natCast k, h, Option.map_some]
  exact get?_item hitem path

theorem integerAt?_beatView (b : Beat) :
    b.view.integerAt? [.member "waypoint_count"] = some (b.waypointCount : Int) := rfl

theorem get?_beatView {b : Beat} {index : Int} (h : 0 ≤ index ∧ index < b.waypointCount) :
    b.view.get? [.member "waypoints", .item index] =
      some (Coordinate.viewOption (b.coordinate? index)) := by
  obtain ⟨k, rfl⟩ := Int.eq_ofNat_of_zero_le h.1
  have hk : k < b.waypoints.length := Int.ofNat_lt.1 h.2
  have hitem : (b.waypoints.map Coordinate.viewOption)[k]? =
      some (Coordinate.viewOption (b.coordinate? (k : Int))) := by
    rw [List.getElem?_map, List.getElem?_eq_getElem hk, Option.map_some, Beat.coordinate?,
      if_neg (by omega), Int.toNat_natCast, List.getElem?_eq_getElem hk, Option.join_some]
  exact get?_item hitem []

theorem Beat.coordinate?_of_out {b : Beat} {index : Int}
    (h : ¬ (0 ≤ index ∧ index < b.waypointCount)) : b.coordinate? index = none := by
  cases hc : b.coordinate? index with
  | none => rfl
  | some c => exact absurd (Beat.mem_of_coordinate?_eq_some hc).1 h

/-! ### Questions answered from a view -/

namespace Service

/-- The coordinate of a waypoint from the view of its segment, null if it is left open or there is
no such waypoint. -/
def waypointIn (segment : Document) (n index : Int) : Option Document := do
  let period ← segment.integerAt? [.member "period"]
  if 0 ≤ n ∧ n < period then
    let beat ← segment.get? [.member "beats", .item n]
    let count ← beat.integerAt? [.member "waypoint_count"]
    if 0 ≤ index ∧ index < count then beat.get? [.member "waypoints", .item index]
    else return .null
  else return .null

/-- The answer to a question, from the view of the pattern of its text. -/
def coordinateIn (view : Document) (q : CoordinateQuestion) : Option Document := do
  let jugglers ← view.integerAt? [.member "jugglers"]
  let i := (q.juggler - 1) % jugglers
  let segment ← view.get? [.member "segments", .item i]
  let period ← segment.integerAt? [.member "period"]
  let coordinate ← waypointIn segment q.beat q.index
  return .object [("segment_index", .integer i), ("period", .integer period),
    ("coordinate", coordinate)]

theorem waypointIn_indexedView (g : Segment) (i : Nat) (n index : Int) :
    waypointIn (g.indexedView i) n index =
      some (Coordinate.viewOption ((g.beat? n).bind (·.coordinate? index))) := by
  rw [waypointIn, integerAt?_indexedView, Option.bind_eq_bind, Option.bind_some]
  by_cases hn : 0 ≤ n ∧ n < g.period
  · obtain ⟨b, -, hb⟩ := Segment.exists_beat? hn
    rw [if_pos hn, get?_indexedView hb, hb, get?, Option.bind_eq_bind, Option.bind_some,
      integerAt?_beatView, Option.bind_some, Option.bind_some]
    by_cases hindex : 0 ≤ index ∧ index < b.waypointCount
    · rw [if_pos hindex, get?_beatView hindex]
    · rw [if_neg hindex, Beat.coordinate?_of_out hindex]
      rfl
  · rw [if_neg hn, Segment.beat?_eq_none_iff.2 hn]
    rfl

/-- A question is answered as it is from the view. -/
theorem exists_respondCoordinate {p : Pattern} (hp : p.segments ≠ []) (q : CoordinateQuestion) :
    ∃ d, respondCoordinate q p = .document 200 d ∧ coordinateIn p.view q = some d := by
  obtain ⟨i, g, hindex, hi, -, -, hg⟩ := Pattern.exists_segment hp q.juggler
  have hview : p.view.get? [.member "segments", .item ((q.juggler - 1) % (p.jugglers : Int))] =
      some (g.indexedView i) := by
    rw [← hi, get?_view (Pattern.getElem?_of_segment hindex hg)]
    rfl
  refine ⟨.object [("segment_index", .natural i), ("period", .natural g.period), ("coordinate",
    Coordinate.viewOption ((g.beat? q.beat).bind (·.coordinate? q.index)))], ?_, ?_⟩
  · rw [respondCoordinate, coordinateView, hindex, Pattern.period_of_segment hg,
      Pattern.coordinate_of_segment hg]
    rfl
  · rw [coordinateIn, integerAt?_view, Option.bind_eq_bind, Option.bind_some]
    dsimp only
    rw [hview, Option.bind_eq_bind, Option.bind_some, integerAt?_indexedView, Option.bind_some,
      waypointIn_indexedView, ← hi]
    rfl

/-! ### The two requests -/

/-- A request to compile a text. -/
def compileRequest (text : String) : Request :=
  ⟨"POST", "/hands/compile", some (.object [("notation", .string text)])⟩

/-- A request that asks for a coordinate. -/
def coordinateRequest (q : CoordinateQuestion) : Request :=
  ⟨"POST", "/hands/coordinate", some (.object [("notation", .string q.text),
    ("juggler", .integer q.juggler), ("beat", .integer q.beat), ("index", .integer q.index)])⟩

theorem readText_of_ne {text : String} (h : text ≠ "") : readText (.string text) = .ok text := by
  rw [readText, if_neg]
  simpa using h

theorem compileBody_compileRequest {text : String} (h : text ≠ "") :
    compileBody (compileRequest text).body = .ok text := by
  show (readText (.string text)).mapError _ = _
  rw [readText_of_ne h]
  rfl

theorem coordinateBody_coordinateRequest {q : CoordinateQuestion} (h : q.text ≠ "") :
    coordinateBody (coordinateRequest q).body = .ok q := by
  show both (both (both (((readText (.string q.text)).mapError _).map _) (.ok q.juggler))
    (.ok q.beat)) (.ok q.index) = _
  rw [readText_of_ne h]
  rfl

theorem capitals_post : Text.capitals "POST" = "POST" := by decide

theorem response_compileRequest {text : String} (h : text ≠ "") :
    (compileRequest text).response = answer text fun p => .document 200 p.view := by
  have hroute : (compileRequest text).route? = .ok .compile :=
    Request.route?_of_target (Route.ofTarget?_path .compile) capitals_post
  rw [Request.response_of_route? hroute]
  simp only [Route.respond, compileBody_compileRequest h]

theorem response_coordinateRequest {q : CoordinateQuestion} (h : q.text ≠ "") :
    (coordinateRequest q).response = answer q.text (respondCoordinate q) := by
  have hroute : (coordinateRequest q).route? = .ok .coordinate :=
    Request.route?_of_target (Route.ofTarget?_path .coordinate) capitals_post
  rw [Request.response_of_route? hroute]
  simp only [Route.respond, coordinateBody_coordinateRequest h]

/-- **The two requests agree.**  For every text that is not empty, a request to compile it and a
question for one of its coordinates are answered with the same status.  If the text compiles, the
answer to the question is the one that is read off the view of the pattern; if it has a fault, both
are told its kind, its message and its place, in the same words; and else both fail. -/
theorem answers_agree {q : CoordinateQuestion} (h : q.text ≠ "") :
    (compileRequest q.text).response.status = (coordinateRequest q).response.status ∧
      match Pattern.ofNotation q.text with
      | .ok _ => ∃ view coordinate, (compileRequest q.text).response = .document 200 view ∧
          (coordinateRequest q).response = .document 200 coordinate ∧
          coordinateIn view q = some coordinate
      | .error (.fault f) => ∃ body, (compileRequest q.text).response = .document 400 body ∧
          (coordinateRequest q).response = .document 400 body ∧
          body = .object [("detail", .object [("kind", .string f.violation.kind.name),
            ("message", .string f.message), ("juggler", .ofInt? f.juggler),
            ("beat", .ofInt? f.beat)])]
      | .error _ => (compileRequest q.text).response = .internalError ∧
          (coordinateRequest q).response = .internalError := by
  rw [response_compileRequest h, response_coordinateRequest h, answer, answer]
  cases hp : Pattern.ofNotation q.text with
  | ok p =>
    obtain ⟨d, hd, hview⟩ :=
      exists_respondCoordinate (wellFormed_of_ofNotation hp).segments_ne_nil q
    dsimp only
    rw [hd]
    exact ⟨rfl, _, _, rfl, rfl, hview⟩
  | error f =>
    cases f with
    | fault f => exact ⟨rfl, _, rfl, rfl, rfl⟩
    | emptyGroup inside juggler beat => exact ⟨rfl, rfl, rfl⟩
    | unreadableNumeral numeral => exact ⟨rfl, rfl, rfl⟩
    | outOfRange => exact ⟨rfl, rfl, rfl⟩

/-- The catch of the only beat of the second segment, asked for by a juggler with a negative
number. -/
theorem answers_agree_negative_juggler : "(0)-(0).|(0)C(1,2,3)-." ≠ "" ∧ ∃ view d,
    (compileRequest "(0)-(0).|(0)C(1,2,3)-.").response = .document 200 view ∧
    (coordinateRequest ⟨"(0)-(0).|(0)C(1,2,3)-.", -6, 0, 1⟩).response = .document 200 d ∧
    coordinateIn view ⟨"(0)-(0).|(0)C(1,2,3)-.", -6, 0, 1⟩ = some d := by
  have hne : "(0)-(0).|(0)C(1,2,3)-." ≠ "" := by decide
  have hp : Pattern.ofNotation "(0)-(0).|(0)C(1,2,3)-." = .ok _ := rfl
  obtain ⟨-, h⟩ := answers_agree (q := ⟨"(0)-(0).|(0)C(1,2,3)-.", -6, 0, 1⟩) hne
  dsimp only at h
  rw [hp] at h
  exact ⟨hne, h⟩

end Service

end HandPath
