import StableFormat.FileTree.Resolve
import StableFormat.Text.Glyphs

/-!
# The environment of a command

What a command takes from its surroundings besides its arguments and the files.
-/

namespace StableFormat

/-- The surroundings of a command. -/
structure Environment where
  /-- The absolute path that relative paths start from. -/
  workingDirectory : Pathname
  /-- The variables that are set. -/
  assignments : List (String × String) := []
  deriving DecidableEq, Repr, Inhabited

namespace Environment

/-- The value of a variable. -/
def get? (env : Environment) (name : String) : Option String :=
  env.assignments.lookup name

/-- The directory of the user. -/
def home? (env : Environment) : Option Pathname :=
  ((env.get? "HOME").or (env.get? "USERPROFILE")).map Pathname.mk

/-- A path as seen from the root of all files. The empty path leads nowhere. -/
def absolute (env : Environment) (p : Pathname) : Pathname :=
  if p.text.isEmpty then p else env.workingDirectory.join p

/-- The directory that violations are announced for, unless this is switched off. -/
def workspace? (env : Environment) : Option Pathname :=
  if ((env.get? "PADCELL_SKIP_GITHUB_ACTIONS").map (·.toLower)) = some "true" then none
  else (env.get? "GITHUB_WORKSPACE").map Pathname.mk

/-- The glyphs for texts: simple if the variable for that is set, whatever its value. -/
def glyphs (env : Environment) : Glyphs :=
  if (env.get? "PADCELL_SIMPLE_GLYPHS").isSome then .simple else .fancy

/-- The prefix that turns paths below the root into paths below a workspace, which is taken by the
place that it leads to. -/
def workspacePrefix (env : Environment) (t : FileTree) (root workspace : Pathname) : String :=
  let canonical :=
    match t.canonical (env.absolute workspace) with
    | .ok path => path
    | .error _ => workspace
  Pathname.workspacePrefix root canonical

end Environment

end StableFormat
