import StableFormat.Glob.Basic
import StableFormat.Pathname.Basic

/-!
# Selecting files

A format names the files that it applies to by globs on their paths below the root. A glob for
exclusion also counts when it covers the name of the file or of any directory on the way to it.
-/

namespace StableFormat

/-- A glob excludes a path: it covers the path, or one of the names in it. -/
def Glob.excludes (glob : Glob) (path : Pathname) : Bool :=
  glob.covers path.text || (path.components.filterMap (·.name?)).any glob.covers

/-- Some glob excludes the path. -/
def isExcluded (path : Pathname) (globs : List Glob) : Bool :=
  globs.any (·.excludes path)

/-- The files that a format applies to. -/
structure Selection where
  /-- At least one of these covers the path; an empty list stands for all paths. -/
  included : List Glob := []
  excluded : List Glob := []
  deriving Repr, Inhabited

/-- The format applies to a file. -/
def Selection.selects (s : Selection) (relative : String) : Bool :=
  (s.included.isEmpty || s.included.any (·.covers relative)) && !isExcluded ⟨relative⟩ s.excluded

end StableFormat
