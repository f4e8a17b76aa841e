import HandPath.Text.Percent
import HandPath.Text.Pieces

/-!
# HandPath.Service.Target — the path that a target leads to

A target may be a path or a whole address; what follows a question mark or a number sign does not
bear on its path. The path of a whole address stands on its own, that of any other target is put
under the root. Dot segments are resolved as they are written, and only then are percent signs
decoded, twice, so that a slash or a dot written with a percent sign never takes part in resolving.
-/

namespace HandPath.Service

open Text

/-- The parts of a target that its path depends on. -/
structure Target where
  scheme : List Char
  authority : List Char
  path : List Char
deriving DecidableEq, Repr

namespace Target

/-- A letter and then letters, digits and three signs; a scheme may also be empty. -/
def isScheme : List Char → Bool
  | [] => true
  | c :: cs => c.isAlpha && cs.all fun d => d.isAlphanum || d = '+' || d = '-' || d = '.'

/-- A scheme before a colon, and the rest. -/
def schemeOf (cs : List Char) : List Char × List Char :=
  let scheme := cs.takeWhile (· ≠ ':')
  match cs.dropWhile (· ≠ ':') with
  | _ :: rest => if isScheme scheme then (scheme, rest) else ([], cs)
  | [] => ([], cs)

/-- An authority after two slashes, and the rest. -/
def authorityOf : List Char → List Char × List Char
  | '/' :: '/' :: cs => (cs.takeWhile (· ≠ '/'), cs.dropWhile (· ≠ '/'))
  | cs => ([], cs)

/-- The parts of a target as a client cuts it. -/
def ofText (text : String) : Target :=
  let (scheme, rest) := schemeOf (text.toList.takeWhile fun c => c ≠ '?' && c ≠ '#')
  let (authority, path) := authorityOf rest
  ⟨scheme, authority, path⟩

variable (t : Target)

/-- The host of the authority, between the name of a user and a number. -/
def host : List Char :=
  let rest := (t.authority.reverse.takeWhile (· ≠ '@')).reverse
  rest.takeWhile (· ≠ ':')

/-- A whole address, with scheme and host. -/
def isAbsolute : Bool := !t.scheme.isEmpty && !t.host.isEmpty

/-- The authority is more than the marks between its parts. -/
def hasAuthority : Bool :=
  match t.authority with
  | [] | ['@'] | [':'] | ['@', ':'] => false
  | _ => true

/-- Something is said besides the path. -/
def isQualified : Bool := !t.scheme.isEmpty || t.hasAuthority

/-- The segments that are left if one dot means the place where it stands and two dots the place
above, which the root does not have. The first argument has the segments before, the last first. -/
def resolve (above : List (List Char)) : List (List Char) → List (List Char)
  | [] => above.reverse
  | ['.'] :: rest => resolve above rest
  | ['.', '.'] :: rest => resolve (if above = [[]] then above else above.tail) rest
  | segment :: rest => resolve (segment :: above) rest

/-- A path without dot segments. -/
def withoutDots (path : List Char) : List Char :=
  ['/'].intercalate (resolve [] (cut (· = '/') path))

/-- The path from the root. The slashes before a path that is put under the root count as one, which
may be left out; if the target is qualified, they are those that are left without dot segments. -/
def rootedPath : List Char :=
  if t.isAbsolute then t.path
  else
    let path := if t.isQualified then withoutDots t.path else t.path
    '/' :: path.dropWhile (· = '/')

/-- The path that the target leads to. -/
def resolvedPath : List Char := percentDecode (percentDecode (withoutDots t.rootedPath))

end Target

end HandPath.Service
