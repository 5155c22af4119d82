import StableFormat.Glob.Basic

/-!
# Exemptions

Which files and steps are left alone, and whose failures are tolerated.
-/

namespace StableFormat

/-- The exemptions of a run. -/
structure Exemptions where
  /-- Steps that run on no file. -/
  skipSteps : List String := []
  /-- Files that are left alone. -/
  skipPaths : List Glob := []
  /-- Steps that do not run on some files. -/
  skipStepPaths : List (String × Glob) := []
  /-- Steps whose failures are tolerated. -/
  ignoreErrorSteps : List String := []
  /-- Files on which failures are tolerated. -/
  ignoreErrorPaths : List Glob := []
  deriving Repr, Inhabited

namespace Exemptions

/-- The file is left alone. -/
def skipsPath (e : Exemptions) (path : String) : Bool :=
  e.skipPaths.any (·.covers path)

/-- The step does not run on the file. -/
def skipsStep (e : Exemptions) (step path : String) : Bool :=
  e.skipSteps.contains step ||
    e.skipStepPaths.any fun (name, glob) => name = step && glob.covers path

/-- A failure of the step on the file is tolerated. -/
def ignoresError (e : Exemptions) (step path : String) : Bool :=
  e.ignoreErrorSteps.contains step || e.ignoreErrorPaths.any (·.covers path)

/-- Some step may be left out on some file. -/
def hasStepSkips (e : Exemptions) : Bool :=
  !e.skipSteps.isEmpty || !e.skipStepPaths.isEmpty

end Exemptions

end StableFormat
