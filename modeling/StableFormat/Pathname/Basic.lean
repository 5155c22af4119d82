import StableFormat.Text.Lines

/-!
# Path names

A path name is a text with `/` between its parts. What it names is given by its components: repeated
and trailing separators and inner `.` parts are not among them, a leading `.` is, and `..` stays as
it is. Names with the same components name the same file; the text is kept for messages.
-/

namespace StableFormat

/-- The text of a path. -/
structure Pathname where
  text : String
  deriving DecidableEq, Repr, Inhabited

namespace Pathname

/-- A component of a path. -/
inductive Component where
  /-- The `/` that an absolute path starts with. -/
  | root
  /-- The `.` that a relative path starts with. -/
  | current
  | parent
  | normal (name : String)
  deriving DecidableEq, Repr, Inhabited

namespace Component

/-- The text of a component. -/
def text : Component → String
  | root => "/"
  | current => "."
  | parent => ".."
  | normal name => name

/-- The kinds of components in their order. -/
def rank : Component → Nat
  | root => 0
  | current => 1
  | parent => 2
  | normal _ => 3

/-- Components are ordered by kind, and names among themselves by their text. -/
def lt : Component → Component → Bool
  | normal a, normal b => a < b
  | a, b => a.rank < b.rank

/-- The name, if the component has one of its own. -/
def name? : Component → Option String
  | normal name => some name
  | _ => none

end Component

/-- A part between separators that is no component. -/
def isIdle (segment : String) : Bool :=
  segment.isEmpty || segment = "."

/-- A path name cut at its separators. The start is empty for a plain relative path; it is `/` or
`.` if the path begins with a component of that kind. -/
structure Split where
  start : Option Component
  body : List String

/-- Cuts a path name at its separators. -/
def split (p : Pathname) : Split :=
  match Text.splitString '/' p.text with
  | first :: second :: rest =>
    if first.isEmpty then ⟨some .root, second :: rest⟩
    else if first = "." then ⟨some .current, second :: rest⟩
    else ⟨none, first :: second :: rest⟩
  | ["."] => ⟨some .current, []⟩
  | body => ⟨none, body⟩

/-- The path name of a start and the parts behind it. -/
def Split.join (s : Split) : Pathname :=
  let body := Text.joinStrings '/' s.body
  match s.start with
  | none => ⟨body⟩
  | some .root => ⟨"/" ++ body⟩
  | some c => if s.body.isEmpty then ⟨c.text⟩ else ⟨c.text ++ "/" ++ body⟩

/-- The component of a part, if it is one. -/
def componentOf? (segment : String) : Option Component :=
  if isIdle segment then none
  else if segment = ".." then some .parent
  else some (.normal segment)

/-- The components of a path, in order. -/
def components (p : Pathname) : List Component :=
  let s := p.split
  s.start.toList ++ s.body.filterMap componentOf?

/-- The path starts at the root of all files. -/
def isAbsolute (p : Pathname) : Bool :=
  p.text.toList.head? = some '/'

/-- A path below another one; an absolute path stays as it is. -/
def join (p q : Pathname) : Pathname :=
  if q.isAbsolute then q
  else if p.text.isEmpty || p.text.toList.getLast? = some '/' then ⟨p.text ++ q.text⟩
  else ⟨p.text ++ "/" ++ q.text⟩

/-- A path with one more part. -/
def child (p : Pathname) (name : String) : Pathname :=
  p.join ⟨name⟩

/-- The parts without the idle ones at the end. -/
def dropIdleEnd (body : List String) : List String :=
  (body.reverse.dropWhile isIdle).reverse

/-- The path without its last component; `none` for the root and for the empty path. -/
def parent? (p : Pathname) : Option Pathname :=
  let s := p.split
  match dropIdleEnd s.body with
  | [] => if s.start = some .current then some ⟨""⟩ else none
  | body => some (Split.join { s with body := dropIdleEnd body.dropLast })

/-- The components of a path behind those of another one, if it starts with them. -/
def componentsBelow? (p base : Pathname) : Option (List Component) :=
  if base.components.isPrefixOf p.components then
    some (p.components.drop base.components.length)
  else none

/-- The path lies at or below another one. -/
def isBelow (p base : Pathname) : Bool :=
  base.components.isPrefixOf p.components

/-- The parts behind the first `count` components. -/
def dropComponents : (count : Nat) → List String → List String
  | 0, body => body
  | _, [] => []
  | count + 1, segment :: rest =>
    if isIdle segment then dropComponents (count + 1) rest else dropComponents count rest

/-- The text of a path behind another one that it starts with. -/
def below? (p base : Pathname) : Option Pathname :=
  if p.isBelow base then
    let s := p.split
    match base.components.length with
    | 0 => some (Split.join { s with body := dropIdleEnd s.body })
    | count + 1 =>
      let body := dropComponents (if s.start.isSome then count else count + 1) s.body
      some (Split.join ⟨none, dropIdleEnd (body.dropWhile isIdle)⟩)
  else none

/-- The path and all its parents, the path first; at most `fuel` of them. -/
def ancestorsWithin : (fuel : Nat) → Pathname → List Pathname
  | 0, _ => []
  | fuel + 1, p =>
    p :: match p.parent? with
      | some q => ancestorsWithin fuel q
      | none => []

/-- The path and all its parents, the path first. Every parent has one component less. -/
def ancestors (p : Pathname) : List Pathname :=
  ancestorsWithin (p.components.length + 1) p

/-- Paths are ordered by their components. -/
def lt (p q : Pathname) : Bool :=
  List.lex p.components q.components Component.lt

/-- The names below a root with `/` between them; `none` if the path does not lie below the root. -/
def relativeTo? (root path : Pathname) : Option String :=
  match path.componentsBelow? root with
  | some below =>
    match below.filterMap Component.name? with
    | [] => none
    | names => some (Text.joinStrings '/' names)
  | none => none

/-- The prefix that turns paths below the root into paths below the workspace: empty if the root is
the workspace, and the root itself if it lies elsewhere. -/
def workspacePrefix (root workspace : Pathname) : String :=
  match root.componentsBelow? workspace with
  | some below => Text.joinStrings '/' (below.map Component.text)
  | none => root.text.map fun c => if c = '\\' then '/' else c

/-- A path below the root as seen from the workspace, given the prefix of the root. -/
def workspacePath (rootPrefix path : String) : String :=
  if rootPrefix.isEmpty then path
  else String.ofList (Text.dropTrailing (· = '/') rootPrefix.toList) ++ "/" ++ path

end Pathname

end StableFormat
