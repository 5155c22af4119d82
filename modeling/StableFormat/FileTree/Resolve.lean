import StableFormat.FileTree.Basic

/-!
# Resolving path names in a file tree

A path name leads through directories only: every component but the last has to be one, and behind a
separator at the end the last one has to be one, too. `..` leads back to the directory above.
-/

namespace StableFormat

/-- Why an operation on files is refused. -/
inductive FileError where
  | notFound
  | alreadyExists
  | notADirectory
  | isADirectory
  | invalidArgument
  | notEmpty
  /-- The bytes that were read are no text. -/
  | notText
  deriving DecidableEq, Repr, Inhabited

/-- The text of an error. -/
def FileError.message : FileError → String
  | notFound => "No such file or directory (os error 2)"
  | alreadyExists => "File exists (os error 17)"
  | notADirectory => "Not a directory (os error 20)"
  | isADirectory => "Is a directory (os error 21)"
  | invalidArgument => "Invalid argument (os error 22)"
  | notEmpty => "Directory not empty (os error 39)"
  | notText => "stream did not contain valid UTF-8"

namespace FileTree

/-- The place that the parts of a path lead to from a place that exists. -/
def walk (t : FileTree) : Place → List String → Except FileError Place
  | place, [] => .ok place
  | place, segment :: rest =>
    if !t.isDirectory place then .error .notADirectory
    else if Pathname.isIdle segment then t.walk place rest
    else if segment = ".." then t.walk place.dropLast rest
    else
      match t.get? (place ++ [segment]) with
      | some _ => t.walk (place ++ [segment]) rest
      | none => .error .notFound

/-- The parts of an absolute path; other paths lead nowhere. -/
def partsOf (p : Pathname) : Except FileError (List String) :=
  if p.isAbsolute then .ok p.split.body else .error .notFound

/-- The place that an absolute path leads to. -/
def locate (t : FileTree) (p : Pathname) : Except FileError Place := do
  t.walk [] (← partsOf p)

/-- The absolute path of a place. -/
def pathOf (place : Place) : Pathname :=
  ⟨"/" ++ Text.joinStrings '/' place⟩

/-- The absolute path of the place that a path leads to. -/
def canonical (t : FileTree) (p : Pathname) : Except FileError Pathname :=
  (t.locate p).map pathOf

/-- The path leads to a directory. -/
def leadsToDirectory (t : FileTree) (p : Pathname) : Bool :=
  match t.locate p with
  | .ok place => t.isDirectory place
  | .error _ => false

/-- The path leads to a file. -/
def leadsToFile (t : FileTree) (p : Pathname) : Bool :=
  match t.locate p with
  | .ok place => !t.isDirectory place
  | .error _ => false

/-- What the file holds that a path leads to. -/
def read (t : FileTree) (p : Pathname) : Except FileError Content := do
  match t.get? (← t.locate p) with
  | some (.file content) => return content
  | some .directory => .error .isADirectory
  | none => .error .notFound

/-- The text of the file that a path leads to. -/
def readText (t : FileTree) (p : Pathname) : Except FileError String := do
  match ← t.read p with
  | .text s => return s
  | .binary _ => .error .notText

/-- A name that a new file or directory can have. -/
def isNewName (segment : String) : Bool :=
  !(Pathname.isIdle segment || segment = ".." || segment.contains '\x00') &&
    segment.utf8ByteSize ≤ 255

/-- The directory that all parts of a path but the last lead to, and the last part, if there is
one. -/
def locateLast (t : FileTree) (parts : List String) : Except FileError (Place × Option String) := do
  let place ← t.walk [] parts.dropLast
  if t.isDirectory place then return (place, parts.getLast?) else .error .notADirectory

/-- The parts of a path without the separators at its end. -/
def dropFinalSeparators (parts : List String) : List String :=
  (parts.reverse.dropWhile (·.isEmpty)).reverse

/-- Makes a directory. Only the last component of the path may be missing. -/
def makeDirectory (t : FileTree) (p : Pathname) : Except FileError FileTree := do
  match ← t.locateLast (dropFinalSeparators (← partsOf p)) with
  | (place, some name) =>
    if !isNewName name || (t.get? (place ++ [name])).isSome then .error .alreadyExists
    else return t.set (place ++ [name]) .directory
  | (_, none) => .error .alreadyExists

/-- Writes a file, which is new or takes the place of one. -/
def writeFile (t : FileTree) (p : Pathname) (content : Content) : Except FileError FileTree := do
  match ← t.locateLast (← partsOf p) with
  | (place, some name) =>
    if !isNewName name || t.isDirectory (place ++ [name]) then .error .isADirectory
    else return t.set (place ++ [name]) (.file content)
  | (_, none) => .error .isADirectory

/-- Removes an empty directory. -/
def removeDirectory (t : FileTree) (p : Pathname) : Except FileError FileTree := do
  let place ← t.locate p
  let last := (dropFinalSeparators (← partsOf p)).getLast?
  if !t.isDirectory place then .error .notADirectory
  else if last = none ∨ last = some "." then .error .invalidArgument
  else if last = some ".." ∨ !(t.below place).isEmpty then .error .notEmpty
  else return t.erase place

end FileTree

end StableFormat
