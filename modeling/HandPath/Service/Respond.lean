import HandPath.Journal.Compile
import HandPath.Pattern.Lookup
import HandPath.Pattern.View
import HandPath.Service.Request
import HandPath.Service.Route
import HandPath.Text.Capital

/-!
# HandPath.Service.Respond — answers to requests

A text with a mistake is answered with status 400 and the particulars of the fault; any other
failure is an internal error. The answer is a function of the request; the records that go with it
are told apart from it (`records`), so what is written in the journal cannot bear on an answer.
-/

namespace HandPath.Service

/-- What a request is answered with. -/
inductive Response where
  | document (status : Nat) (body : Document)
  | page (p : Page)
  | internalError

namespace Response

def status : Response → Nat
  | document status _ => status
  | page _ => 200
  | internalError => 500

/-- A response whose body only has a detail. -/
def detail (status : Nat) (d : Document) : Response := .document status (.object [("detail", d)])

def notFound : Response := detail 404 (.string "Not Found")

def methodNotAllowed : Response := detail 405 (.string "Method Not Allowed")

def unprocessable (errors : List FieldError) : Response :=
  .document 422 (.array (errors.map FieldError.view))

end Response

/-- The particulars of a fault. -/
def faultView (f : Fault) : Document :=
  .object [("kind", .string f.violation.kind.name), ("message", .string f.message),
    ("juggler", .ofInt? f.juggler), ("beat", .ofInt? f.beat)]

/-- The answer to a text, given what to do with its pattern. -/
def answer (text : String) (respond : Pattern → Response) : Response :=
  match Pattern.ofNotation text with
  | .ok p => respond p
  | .error (.fault f) => .detail 400 (faultView f)
  | .error _ => .internalError

/-- The answer to a question that the pattern can be asked. -/
def coordinateView (q : CoordinateQuestion) (p : Pattern) : Except LookupError Document := do
  let i ← p.segmentIndex q.juggler
  let period ← p.period q.juggler
  let c ← p.coordinate q.juggler q.beat q.index
  return .object [("segment_index", .natural i), ("period", .natural period),
    ("coordinate", Coordinate.viewOption c)]

def respondCoordinate (q : CoordinateQuestion) (p : Pattern) : Response :=
  match coordinateView q p with
  | .ok d => .document 200 d
  | .error _ => .internalError

/-- The answer of a route to a body. -/
def Route.respond (body : Option Document) : Route → Response
  | health => .document 200 (.object [("status", .string "ok")])
  | compile =>
    match compileBody body with
    | .ok text => answer text fun p => .document 200 p.view
    | .error errors => .unprocessable errors
  | coordinate =>
    match coordinateBody body with
    | .ok q => answer q.text (respondCoordinate q)
    | .error errors => .unprocessable errors

/-- The method of the request in capitals, as methods are compared. -/
def Request.verb (r : Request) : String := Text.capitals r.method

/-- The response to a request that no route answers: a page, if the target leads to one. -/
def Request.pageResponse (r : Request) : Response :=
  match Page.ofTarget? r.target with
  | none => .notFound
  | some p => if r.verb ∈ Page.methods then .page p else .methodNotAllowed

/-- The route that answers the request, if target and method fit one, or else the response. -/
def Request.route? (r : Request) : Except Response Route :=
  match Route.ofTarget? r.target with
  | none => .error r.pageResponse
  | some route => if r.verb = route.method then .ok route else .error .methodNotAllowed

def Request.response (r : Request) : Response :=
  match r.route? with
  | .ok route => route.respond r.body
  | .error response => response

section

variable {r : Request} {route : Route} {response : Response}

theorem Request.route?_of_target (h : Route.ofTarget? r.target = some route)
    (hverb : r.verb = route.method) : r.route? = .ok route := by
  unfold Request.route?
  rw [h]
  exact if_pos hverb

/-- A request that no route answers leads to a page, or has another method than its route. -/
theorem Request.eq_of_route?_eq_error (h : r.route? = .error response) :
    response = r.pageResponse ∨ response = .methodNotAllowed := by
  unfold Request.route? at h
  split at h
  · exact .inl (Except.error.inj h).symm
  · split at h
    · nomatch h
    · exact .inr (Except.error.inj h).symm

theorem Request.response_of_route? (h : r.route? = .ok route) :
    r.response = route.respond r.body := by
  unfold Request.response
  rw [h]

theorem Request.response_of_error (h : r.route? = .error response) : r.response = response := by
  unfold Request.response
  rw [h]

end

/-! ### Records -/

/-- The record of a text that was answered with a fault. -/
def rejectionRecord (text : String) (f : Fault) : Journal.Record :=
  ⟨.info, .service, "hands notation rejected: kind=" ++
    f.violation.kind.name ++ " notation=" ++ Text.quoted text⟩

/-- The records of a text that a route compiles: those of the compilation and, if the text has a
mistake, its rejection. -/
def textRecords (text : String) : List Journal.Record :=
  let run := Notation.run text.toList
  Journal.runRecords run ++
    match run.failure with
    | some (.fault f) => [rejectionRecord text f]
    | _ => []

/-- The text that the route compiles for a body, if the body is accepted. -/
def Route.text? (body : Option Document) : Route → Option String
  | health => none
  | compile => (compileBody body).toOption
  | coordinate => (coordinateBody body).toOption.map CoordinateQuestion.text

/-- What is written in the course of a request. -/
def Request.records (r : Request) : List Journal.Record :=
  match r.route? with
  | .ok route => ((route.text? r.body).map textRecords).getD []
  | .error _ => []

end HandPath.Service
