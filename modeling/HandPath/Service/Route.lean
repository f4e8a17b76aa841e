import HandPath.Service.Target

/-!
# HandPath.Service.Route — what there is to ask for

The routes answer with what they compute; the pages describe the service and are only read. Each is
known by its path, whatever the method. A target that is the path of a route leads to that route
(`Route.ofTarget?_path`).
-/

namespace HandPath.Service

/-- The target leads to a path. The slashes at the end of what it resolves to count for nothing, and
neither does one line feed. -/
def Target.leadsTo (t : Target) (path : String) : Bool :=
  let resolved := (t.resolvedPath.reverse.dropWhile (· = '/')).reverse
  resolved == path.toList || resolved == path.toList ++ ['\n']

/-- What the service computes an answer for. -/
inductive Route where
  | health
  | compile
  | coordinate
deriving DecidableEq, Repr

namespace Route

def all : List Route := [health, compile, coordinate]

def path : Route → String
  | health => "/health"
  | compile => "/hands/compile"
  | coordinate => "/hands/coordinate"

/-- The only method that a route answers. -/
def method : Route → String
  | health => "GET"
  | compile => "POST"
  | coordinate => "POST"

/-- The route that a target leads to. -/
def ofTarget? (target : String) : Option Route :=
  all.find? fun r => (Target.ofText target).leadsTo r.path

theorem ofTarget?_path (r : Route) : ofTarget? r.path = some r := by
  cases r <;> decide +kernel

end Route

/-- A page that describes the service. Its contents are fixed and no concern of the library. -/
inductive Page where
  | description
  | explorer
  | explorerSignIn
  | reference
deriving DecidableEq, Repr

namespace Page

def all : List Page := [description, explorer, explorerSignIn, reference]

def path : Page → String
  | description => "/openapi.json"
  | explorer => "/docs"
  | explorerSignIn => "/docs/oauth2-redirect"
  | reference => "/redoc"

/-- The methods that read a page, with its contents or without. -/
def methods : List String := ["GET", "HEAD"]

/-- The page that a target leads to. -/
def ofTarget? (target : String) : Option Page :=
  all.find? fun p => (Target.ofText target).leadsTo p.path

end Page

end HandPath.Service
