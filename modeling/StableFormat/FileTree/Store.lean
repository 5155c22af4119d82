import StableFormat.FileTree.Resolve
import StableFormat.Run.Outcome

/-!
# Reading sources and keeping results

What a run does with files: it reads its sources as text, replaces a file by its settled content,
and keeps the values of orbits in a directory of their own. Nothing is undone when an operation
fails halfway, so an operation returns the tree along with its error.
-/

namespace StableFormat

/-- An operation on the files of a run that failed. -/
inductive StoreError where
  | outsideRoot (path root : Pathname)
  | cannotStat (relative : String) (cause : FileError)
  | tooLarge (relative : String) (size : Nat)
  | cannotRead (relative : String) (cause : FileError)
  | notText (relative : String)
  | cannotCreateTemporary (directory : Pathname) (cause : FileError)
  | cannotReplace (path : Pathname) (cause : FileError)
  | cannotClear (directory : Pathname) (cause : FileError)
  | cannotCreate (directory : Pathname) (cause : FileError)
  | cannotWrite (path : Pathname) (cause : FileError)
  deriving DecidableEq, Repr, Inhabited

/-- The size in bytes up to which files are read. -/
def maxFileSize : Nat := 100 * 1024 * 1024

namespace StoreError

/-- The text of an error, without its cause. -/
def message : StoreError → String
  | outsideRoot path root => path.text ++ " is outside of " ++ root.text
  | cannotStat relative _ => "failed to stat " ++ relative
  | tooLarge relative size =>
    let megabyte := 1024 * 1024
    relative ++ " is " ++ toString (size / megabyte) ++ " MB, above the limit of " ++
      toString (maxFileSize / megabyte) ++ " MB"
  | cannotRead relative _ => "failed to read " ++ relative
  | notText relative => relative ++ " is not valid UTF-8"
  | cannotCreateTemporary directory _ =>
    "failed to create temporary file in " ++ directory.text
  | cannotReplace path _ => "failed to replace " ++ path.text
  | cannotClear directory _ => "failed to clear " ++ directory.text
  | cannotCreate directory _ => "failed to create " ++ directory.text
  | cannotWrite path _ => "failed to write " ++ path.text

/-- The cause of an error, if it has one. -/
def cause? : StoreError → Option FileError
  | outsideRoot _ _ | tooLarge _ _ => none
  | notText _ => some .notText
  | cannotStat _ e | cannotRead _ e | cannotCreateTemporary _ e | cannotReplace _ e
  | cannotClear _ e | cannotCreate _ e | cannotWrite _ e => some e

end StoreError

namespace FileTree

/-- The tree after an operation, and whether it worked. -/
abbrev Outcome (ε : Type) := FileTree × Except ε Unit

/-- The size of what stands at a place; that of a directory does not matter. -/
def sizeAt (t : FileTree) (place : Place) : Nat :=
  ((t.fileAt? place).map Content.size).getD 0

/-- Reads a file below the root as text. -/
def readSource (t : FileTree) (root path : Pathname) : Except StoreError SourceFile :=
  match Pathname.relativeTo? root path with
  | none => .error (.outsideRoot path root)
  | some relative =>
    match t.locate path with
    | .error e => .error (.cannotStat relative e)
    | .ok place =>
      if maxFileSize < t.sizeAt place then .error (.tooLarge relative (t.sizeAt place))
      else
        match t.readText path with
        | .ok content => .ok ⟨relative, content⟩
        | .error .notText => .error (.notText relative)
        | .error e => .error (.cannotRead relative e)

/-- Replaces a file in one go, with the help of a temporary file in the directory above it. -/
def replaceFile (t : FileTree) (path : Pathname) (content : String) : Outcome StoreError :=
  let replaced : Outcome StoreError :=
    match t.writeFile path (.text content) with
    | .ok t => (t, .ok ())
    | .error e => (t, .error (.cannotReplace path e))
  match path.parent? with
  | none => replaced
  | some directory =>
    match t.locate directory with
    | .error e => (t, .error (.cannotCreateTemporary directory e))
    | .ok place =>
      if t.isDirectory place then replaced
      else (t, .error (.cannotCreateTemporary directory .notADirectory))

/-- Removes a directory with all that it holds, if there is one. What it holds is gone even where
the directory itself cannot be removed by that path. -/
def clearDirectory (t : FileTree) (directory : Pathname) : Outcome StoreError :=
  match t.locate directory with
  | .error _ => (t, .ok ())
  | .ok place =>
    if t.isDirectory place then
      let emptied := t.eraseBelow place
      match emptied.removeDirectory directory with
      | .ok t => (t, .ok ())
      | .error .notFound => (emptied, .ok ())
      | .error e => (emptied, .error (.cannotClear directory e))
    else (t, .error (.cannotClear directory .notADirectory))

/-- Makes the first of some directories, each of which lies in the next one; those that are missing
are made first. -/
def makeAll (t : FileTree) : List Pathname → Outcome FileError
  | [] => (t, .error .notFound)
  | p :: above =>
    if p.text.isEmpty then (t, .ok ())
    else
      let unlessThere (t : FileTree) (e : FileError) : Outcome FileError :=
        (t, if t.leadsToDirectory p then .ok () else .error e)
      match t.makeDirectory p with
      | .ok t => (t, .ok ())
      | .error .notFound =>
        match t.makeAll above with
        | (t, .error e) => (t, .error e)
        | (t, .ok ()) =>
          match t.makeDirectory p with
          | .ok t => (t, .ok ())
          | .error e => unlessThere t e
      | .error e => unlessThere t e

/-- Writes a file, after the directories that lead to it. -/
def writeDeep (t : FileTree) (path : Pathname) (content : Content) : Outcome StoreError :=
  let write (t : FileTree) : Outcome StoreError :=
    match t.writeFile path content with
    | .ok t => (t, .ok ())
    | .error e => (t, .error (.cannotWrite path e))
  match path.parent? with
  | none => write t
  | some directory =>
    match t.makeAll directory.ancestors with
    | (t, .ok ()) => write t
    | (t, .error e) => (t, .error (.cannotCreate directory e))

/-- Keeps the values of orbits in a directory; the first failure ends it. -/
def writeDiagnostics (t : FileTree) (directory : Pathname) :
    List DiagnosticFile → Outcome StoreError
  | [] => (t, .ok ())
  | file :: rest =>
    match t.writeDeep (directory.child file.name) (.text file.content) with
    | (t, .ok ()) => t.writeDiagnostics directory rest
    | (t, .error e) => (t, .error e)

end FileTree

end StableFormat
