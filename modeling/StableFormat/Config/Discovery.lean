import StableFormat.Environment
import StableFormat.Config.File

/-!
# Finding configuration files

A configuration is put together from the file in the user's directory and those in the directories
on the way from the root of all files to where the work is done. The nearer file comes later, and so
its settings win.
-/

namespace StableFormat

namespace Config

/-- The name of configuration files. -/
def fileName : String := "padcell.toml"

/-- The directory that the way to a path ends in: the path itself, or the one that a file lies
in. -/
def startDirectory (env : Environment) (t : FileTree) (start : Pathname) : Option Pathname :=
  if t.leadsToFile (env.absolute start) then start.parent?
  else if t.leadsToDirectory (env.absolute start) then some start
  else some env.workingDirectory

/-- The path of the configuration file in a directory, if there is one. -/
def fileIn? (env : Environment) (t : FileTree) (directory : Pathname) : Option Pathname :=
  let path := directory.child fileName
  if t.leadsToFile (env.absolute path) then some path else none

/-- Adds a path, unless one with the same components is there already. -/
def addNew (paths : List Pathname) (path : Pathname) : List Pathname :=
  if paths.any (·.components = path.components) then paths else paths ++ [path]

/-- The configuration files for a path, the nearest last. -/
def discover (env : Environment) (t : FileTree) (start : Pathname) : List Pathname :=
  let ofUser := (env.home?.bind (fileIn? env t)).toList
  let directories := ((startDirectory env t start).map (·.ancestors.reverse)).getD []
  (directories.filterMap (fileIn? env t)).foldl addNew ofUser

/-- Lays a file on top of a configuration; one that cannot be read does not count. -/
def applyFile (env : Environment) (t : FileTree) (c : Config) (path : Pathname) : Config :=
  match t.readText (env.absolute path) with
  | .error _ => c
  | .ok text =>
    match PartialConfig.read text with
    | .ok settings => c.applyPartial settings
    | .error _ => c

/-- The configuration for a path. -/
def discovered (env : Environment) (t : FileTree) (start : Pathname) : Config :=
  (discover env t start).foldl (applyFile env t) default

/-- Why a configuration file cannot be loaded. -/
inductive LoadError where
  | file (e : FileError)
  | toml (e : Toml.Error)
  deriving DecidableEq, Repr, Inhabited

/-- The text of an error. -/
def LoadError.message : LoadError → String
  | file e => e.message
  | toml e => e.message

/-- The configuration of one file. -/
def load (env : Environment) (t : FileTree) (path : Pathname) : Except LoadError Config :=
  match t.readText (env.absolute path) with
  | .error e => .error (.file e)
  | .ok text =>
    match Config.read text with
    | .ok c => .ok c
    | .error e => .error (.toml e)

end Config

end StableFormat
