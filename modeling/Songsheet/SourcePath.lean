/-!
# Paths of sources

A source is named by a path: names separated by slashes, absolute if it starts with a slash.
A path is shown exactly as it was written; what it means is given by its components.

* `SourcePath.components` — the parts of a path. Empty parts are skipped, and so is every `.`
  except one at the start of a relative path.
* `SourcePath.same` — two paths are the same if their components are.
* `SourcePath.normalize` — the shortest path to the same place, found without looking at any
  disk: `.` is dropped and `..` takes back the name before it.
* `SourcePath.resolve` — the path of a source that another one includes.
-/

namespace Songsheet

/-- One step of a path. -/
inductive Component where
  | root
  | current
  | parent
  | name (text : String)
  deriving DecidableEq, Repr

/-- A path as it was written. -/
structure SourcePath where
  text : String
  deriving DecidableEq, Repr

/-- The stretches of a text between slashes; a text without a slash is one stretch. -/
def slashParts : List Char → List (List Char)
  | [] => [[]]
  | c :: rest =>
    if c = '/' then [] :: slashParts rest
    else match slashParts rest with
      | [] => [[c]]
      | part :: parts => (c :: part) :: parts

namespace Component

/-- What a part between two slashes stands for; an empty part and `.` stand for nothing. -/
def ofPart? (part : List Char) : Option Component :=
  if part = [] ∨ part = ['.'] then none
  else if part = ['.', '.'] then some .parent
  else some (.name (String.ofList part))

/-- The text of a component. -/
def text : Component → String
  | .root => "/"
  | .current => "."
  | .parent => ".."
  | .name n => n

end Component

namespace SourcePath

/-- The components of a path. -/
def components (p : SourcePath) : List Component :=
  let parts := slashParts p.text.toList
  let first := match parts with
    | ['.'] :: _ => [.current]
    | [] :: _ :: _ => [.root]
    | _ => []
  first ++ parts.filterMap Component.ofPart?

/-- Two paths that have the same components. -/
def same (p q : SourcePath) : Bool :=
  p.components == q.components

/-- Whether a path starts at the root. -/
def isAbsolute (p : SourcePath) : Bool :=
  p.text.toList.head? == some '/'

end SourcePath

/-! ## Routes -/

/-- Where a route begins: at the root, or some levels above the current directory. -/
inductive Anchor where
  | root
  | above (levels : Nat)
  deriving DecidableEq, Repr

/-- A path in its normal form: where it begins and the names that follow, in order. -/
structure Route where
  anchor : Anchor
  names : List String
  deriving DecidableEq, Repr

namespace Route

/-- The route that stays where it is. -/
def here : Route := ⟨.above 0, []⟩

/-- The route that goes on by one component. Above the root there is only the root. -/
def step (r : Route) : Component → Route
  | .root => ⟨.root, []⟩
  | .current => r
  | .name n => { r with names := r.names ++ [n] }
  | .parent =>
    match r.names, r.anchor with
    | _ :: _, _ => { r with names := r.names.dropLast }
    | [], .root => r
    | [], .above levels => ⟨.above (levels + 1), []⟩

/-- The route that goes on by several components. -/
def follow (r : Route) (steps : List Component) : Route :=
  steps.foldl step r

/-- The components of a route. -/
def components (r : Route) : List Component :=
  (match r.anchor with
    | .root => [.root]
    | .above levels => List.replicate levels .parent) ++ r.names.map .name

/-- The shortest path that takes a route. -/
def path (r : Route) : SourcePath :=
  match r.anchor with
  | .root => ⟨"/" ++ "/".intercalate r.names⟩
  | .above _ => ⟨"/".intercalate (r.components.map Component.text)⟩

end Route

namespace SourcePath

/-- The route that a path takes. -/
def route (p : SourcePath) : Route :=
  Route.here.follow p.components

/-- The shortest path to the same place. -/
def normalize (p : SourcePath) : SourcePath :=
  p.route.path

/-- The components of the directory that holds a source. -/
def directory (p : SourcePath) : List Component :=
  p.components.dropLast

/-- The path of a source that is included under the name `target`: an absolute target stands
alone, any other is found from the directory of the including source. -/
def resolve (including : SourcePath) (target : String) : SourcePath :=
  if (SourcePath.mk target).isAbsolute then normalize ⟨target⟩
  else ((Route.here.follow including.directory).follow (components ⟨target⟩)).path

end SourcePath

end Songsheet
