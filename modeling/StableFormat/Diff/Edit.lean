/-!
# Edits

A difference between two sequences is a list of edits. Each replaces a range of the first sequence
by a range of the second; what lies between the edits is the same in both.
-/

namespace StableFormat

/-- What an edit does. -/
inductive EditKind where
  | insert
  | delete
  | replace
  deriving DecidableEq, Repr, Inhabited

/-- Replaces the elements from `beginA` to before `endA` of the first sequence by those from
`beginB` to before `endB` of the second. -/
structure Edit where
  beginA : Nat
  endA : Nat
  beginB : Nat
  endB : Nat
  deriving DecidableEq, Repr, Inhabited

namespace Edit

/-- The number of elements that the edit removes. -/
def lenA (e : Edit) : Nat :=
  e.endA - e.beginA

/-- The number of elements that the edit puts in. -/
def lenB (e : Edit) : Nat :=
  e.endB - e.beginB

/-- An edit that removes nothing inserts; otherwise one that puts in nothing deletes. -/
def kind (e : Edit) : EditKind :=
  if e.lenA = 0 then .insert else if e.lenB = 0 then .delete else .replace

end Edit

/-- One move of an edit script: keep an element, drop one of the first sequence, or take one of the
second. -/
inductive EditOp where
  | equal
  | delete
  | insert
  deriving DecidableEq, Repr, Inhabited

namespace EditOp

/-- The edit in progress with one more element of the first sequence removed at `ia`. -/
def extendDelete (current : Option Edit) (ia ib : Nat) : Edit :=
  { current.getD ⟨ia, ia, ib, ib⟩ with endA := ia + 1 }

/-- The edit in progress with one more element of the second sequence put in at `ib`. -/
def extendInsert (current : Option Edit) (ia ib : Nat) : Edit :=
  { current.getD ⟨ia, ia, ib, ib⟩ with endB := ib + 1 }

/-- Joins neighbouring deletions and insertions to edits. The script starts at the positions `ia`
and `ib`, inside the edit `current` if there is one. -/
def group : List EditOp → (ia ib : Nat) → Option Edit → List Edit
  | [], _, _, current => current.toList
  | equal :: ops, ia, ib, current => current.toList ++ group ops (ia + 1) (ib + 1) none
  | delete :: ops, ia, ib, current => group ops (ia + 1) ib (some (extendDelete current ia ib))
  | insert :: ops, ia, ib, current => group ops ia (ib + 1) (some (extendInsert current ia ib))

end EditOp

end StableFormat
