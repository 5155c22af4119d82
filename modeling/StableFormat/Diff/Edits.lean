import StableFormat.Diff.ShortestScript

/-!
# The edits between two sequences

What both sequences start and end with is set aside first, so that a few changes in long sequences
are found at once. Between the rest, a shortest script is searched; a script that would be too long
is given up for the replacement of all that is left.
-/

namespace StableFormat

variable {α : Type} [DecidableEq α]

/-- The number of elements that two sequences have in common at their start. -/
def commonPrefixLength : List α → List α → Nat
  | x :: xs, y :: ys => if x = y then commonPrefixLength xs ys + 1 else 0
  | _, _ => 0

/-- The largest number of deletions and insertions that is searched for. -/
def maxEditDistance : Nat := 1024

/-- The script that drops one sequence and takes the other. -/
def replaceScript (deleted inserted : Nat) : List EditOp :=
  List.replicate deleted .delete ++ List.replicate inserted .insert

/-- A shortest script within a limit, or else the script that replaces everything. -/
def scriptWithin (limit : Nat) (a b : Array α) : List EditOp :=
  match ShortestScript.shortestScript a b limit with
  | .ok (some ops) => ops
  | _ => replaceScript a.size b.size

/-- The edits that turn `a` into `b`, in ascending order, when scripts longer than `limit` are not
searched for. -/
def editsWithin (limit : Nat) (a b : List α) : List Edit :=
  let common := commonPrefixLength a b
  let restA := a.drop common
  let restB := b.drop common
  let suffix := commonPrefixLength restA.reverse restB.reverse
  let middleA := restA.take (restA.length - suffix)
  let middleB := restB.take (restB.length - suffix)
  EditOp.group (scriptWithin limit middleA.toArray middleB.toArray) common common none

/-- The edits that turn `a` into `b`, in ascending order. -/
def edits (a b : List α) : List Edit :=
  editsWithin maxEditDistance a b

end StableFormat
