import StableFormat.FileTree.Resolve
import StableFormat.Run.Selection

/-!
# Collecting files

The files to work on: those named, and those below the directories named. The names of the files
begin as they were given, so two names may differ and lead to the same file.
-/

namespace StableFormat

namespace FileTree

/-- How deep below a directory files are looked for. -/
def maxDepth : Nat := 256

/-- The path names of the files below a place, whose own path name is `directory`. -/
def filesBelow (t : FileTree) (directory : Pathname) (place : Place) : List Pathname :=
  (t.below place).filterMap fun (names, node) =>
    match node with
    | .file _ =>
      if names.length ≤ maxDepth then some (names.foldl Pathname.child directory) else none
    | .directory => none

/-- The path below the root, if it lies there, and otherwise the path itself. -/
def seenFrom (root path : Pathname) : Pathname :=
  (path.below? root).getD path

/-- The files of one input, without the excluded ones. A file named by itself is excluded by its
whole path, and one found below a directory by its path below the root. -/
def filesOf (t : FileTree) (root : Pathname) (excluded : List Glob) (input : Pathname) :
    List Pathname :=
  let path := root.join input
  match t.locate path with
  | .error _ => []
  | .ok place =>
    if t.isDirectory place then
      (t.filesBelow path place).filter fun file => !isExcluded (seenFrom root file) excluded
    else if isExcluded path excluded then [] else [path]

/-- The paths without those that have the same components as the one kept before them. -/
def dropRepeated (kept : Option Pathname) : List Pathname → List Pathname
  | [] => []
  | p :: rest =>
    if kept.any (·.components = p.components) then dropRepeated kept rest
    else p :: dropRepeated (some p) rest

/-- The files of all inputs, or of the root if there are none, in order and each once. -/
def collect (t : FileTree) (root : Pathname) (inputs : List Pathname) (excluded : List Glob) :
    List Pathname :=
  let inputs := if inputs.isEmpty then [root] else inputs
  dropRepeated none ((inputs.flatMap (t.filesOf root excluded)).mergeSort fun p q => !q.lt p)

end FileTree

end StableFormat
