import StableFormat.Pathname.Basic

/-!
# File trees

A file tree says which names stand for directories and which for files. A place in it is the list of
names that leads there from the root; the root is always a directory. Path names are only resolved
against a tree in `FileTree.Resolve`.
-/

namespace StableFormat

/-- The content of a file. -/
inductive Content where
  | text (s : String)
  /-- Bytes that are no text. -/
  | binary (bytes : List UInt8)
  deriving DecidableEq, Repr, Inhabited

/-- The content that bytes make. -/
def Content.ofBytes (bytes : ByteArray) : Content :=
  match String.fromUTF8? bytes with
  | some s => text s
  | none => binary bytes.toList

/-- The number of bytes. -/
def Content.size : Content → Nat
  | text s => s.utf8ByteSize
  | binary bytes => bytes.length

/-- What stands at a place. -/
inductive Node where
  | directory
  | file (content : Content)
  deriving DecidableEq, Repr, Inhabited

/-- The content of a file, if it is one. -/
def Node.content? : Node → Option Content
  | directory => none
  | file content => some content

/-- The names that lead from the root to a place. -/
abbrev Place := List String

/-- A tree of files: the places that are in use, but for the root. -/
structure FileTree where
  entries : List (Place × Node) := []
  deriving DecidableEq, Repr, Inhabited

namespace FileTree

/-- What stands at a place, if anything does. -/
def get? (t : FileTree) (place : Place) : Option Node :=
  if place.isEmpty then some .directory else t.entries.lookup place

/-- The content of the file at a place, if there is a file. -/
def fileAt? (t : FileTree) (place : Place) : Option Content :=
  (t.get? place).bind Node.content?

/-- There is a directory at the place. -/
def isDirectory (t : FileTree) (place : Place) : Bool :=
  t.get? place = some .directory

/-- The tree with a node put at a place. -/
def set (t : FileTree) (place : Place) (node : Node) : FileTree :=
  if (t.entries.lookup place).isSome then
    ⟨t.entries.map fun entry => if entry.1 = place then (place, node) else entry⟩
  else ⟨t.entries ++ [(place, node)]⟩

/-- The tree without what stands at a place or below it. -/
def erase (t : FileTree) (place : Place) : FileTree :=
  ⟨t.entries.filter fun entry => !place.isPrefixOf entry.1⟩

/-- The tree without what stands below a place. -/
def eraseBelow (t : FileTree) (place : Place) : FileTree :=
  ⟨t.entries.filter fun entry => !(place.isPrefixOf entry.1 && entry.1 != place)⟩

/-- Everything below a place, with the names that lead there from it. -/
def below (t : FileTree) (place : Place) : List (Place × Node) :=
  t.entries.filterMap fun (p, node) =>
    if place.isPrefixOf p ∧ p ≠ place then some (p.drop place.length, node) else none

/-- Every place is used once, and lies in a directory. -/
def IsWellFormed (t : FileTree) : Prop :=
  (t.entries.map (·.1)).Nodup ∧
    ∀ entry ∈ t.entries, entry.1 ≠ [] ∧ t.get? entry.1.dropLast = some .directory

end FileTree

end StableFormat
