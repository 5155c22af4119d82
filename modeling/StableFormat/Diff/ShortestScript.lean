import StableFormat.Checked
import StableFormat.Diff.Edit

/-!
# Shortest edit scripts

A script that turns `a` into `b` is a path in a grid from the corner `(0, 0)` to the corner
`(|a|, |b|)`: a step to the right deletes an element of `a`, a step down inserts one of `b`, and a
diagonal step keeps an element that both have. The search goes in rounds. After round `d` it knows,
for each diagonal `k = x - y`, the furthest point that is reached with `d` deletions and insertions;
the first round that reaches the far corner gives the least number. What was known before each round
is kept, and the path is read off backwards from that.
-/

namespace StableFormat.ShortestScript

variable {α : Type} [DecidableEq α]

/-- For each diagonal from `-bound - 1` on, how far to the right the search has come on it. -/
structure Frontier where
  bound : Nat
  reach : Array Int

namespace Frontier

/-- Nothing has been reached but the corner. -/
def start (bound : Nat) : Frontier :=
  ⟨bound, Array.replicate (2 * bound + 4) 0⟩

/-- The place of a diagonal in the array. -/
def slot (f : Frontier) (k : Int) : Int :=
  k + f.bound + 1

/-- How far the search has come on a diagonal. -/
def get (f : Frontier) (k : Int) : Checked Int :=
  Checked.read f.reach (f.slot k)

/-- The search has come to `x` on a diagonal. -/
def set (f : Frontier) (k x : Int) : Checked Frontier :=
  (Checked.write f.reach (f.slot k) x).map fun reach => { f with reach := reach }

/-- What is known on the diagonals from `-d - 1` to `d + 1`. -/
def window (f : Frontier) (d : Nat) : Checked (Array Int) :=
  Checked.slice f.reach (f.slot (-d - 1)) (f.slot (d + 1))

end Frontier

/-- In round `d`, the furthest path to diagonal `k` comes from diagonal `k + 1` by an insertion,
rather than from `k - 1` by a deletion. -/
def comesFromAbove (reach : Int → Checked Int) (d : Nat) (k : Int) : Checked Bool :=
  if k = -d then .ok true
  else if k = d then .ok false
  else do
    let left ← reach (k - 1)
    let right ← reach (k + 1)
    return left < right

/-- Goes on along a diagonal as long as both sequences agree. -/
def slide (a b : Array α) (x y : Int) : Checked (Int × Int) :=
  if _h : x < a.size ∧ y < b.size then
    match Checked.read a x, Checked.read b y with
    | .ok s, .ok t => if s = t then slide a b (x + 1) (y + 1) else .ok (x, y)
    | .error e, _ => .error e
    | _, .error e => .error e
  else .ok (x, y)
termination_by (a.size - x).toNat
decreasing_by omega

/-- The furthest point on diagonal `k` after round `d`. -/
def furthest (a b : Array α) (f : Frontier) (d : Nat) (k : Int) : Checked (Int × Int) := do
  let x ←
    if ← comesFromAbove f.get d k then f.get (k + 1)
    else (· + 1) <$> f.get (k - 1)
  slide a b x (x - k)

/-- The last `count` diagonals of round `d`, which are the ones with the parity of `d`. The result
also says whether the far corner has been reached; the round ends there. -/
def round (a b : Array α) (d : Nat) : (count : Nat) → Frontier → Checked (Frontier × Bool)
  | 0, f => .ok (f, false)
  | count + 1, f => do
    let k : Int := d - 2 * count
    let (x, y) ← furthest a b f d k
    let f ← f.set k x
    if a.size ≤ x ∧ y ≥ b.size then return (f, true) else round a b d count f

/-- Up to `rounds` rounds, from round `d` on. The trace holds what was known before each round, the
last one first; there is none if the corner is not reached. -/
def search (a b : Array α) :
    (rounds d : Nat) → Frontier → List (Array Int) → Checked (Option (List (Array Int)))
  | 0, _, _, _ => .ok none
  | rounds + 1, d, f, trace => do
    let window ← f.window d
    let (f, reached) ← round a b d (d + 1) f
    if reached then return some (window :: trace) else search a b rounds (d + 1) f (window :: trace)

/-- The path back from a point through the trace, in front of the script for the rest. The point
that remains comes first in the result. -/
def walkBack : List (Array Int) → (x y : Int) → List EditOp → Checked ((Int × Int) × List EditOp)
  | [], x, y, ops => .ok ((x, y), ops)
  | window :: earlier, x, y, ops => do
    let d := earlier.length
    let reach (k : Int) : Checked Int := Checked.read window (k + d + 1)
    let k := x - y
    let previous := if ← comesFromAbove reach d k then k + 1 else k - 1
    let previousX ← reach previous
    let previousY := previousX - previous
    let kept := (min (x - previousX) (y - previousY)).toNat
    let ops := List.replicate kept EditOp.equal ++ ops
    if earlier.isEmpty then return ((x - kept, y - kept), ops)
    else
      let op := if x - kept = previousX then EditOp.insert else EditOp.delete
      walkBack earlier previousX previousY (op :: ops)

/-- A shortest script that turns `a` into `b`; `none` if it needs more than `limit` deletions and
insertions. If one of the sequences is empty, there is only one script and no limit. The limit is any
natural number here. In a search with signed numbers of 64 bits it has to be less than `2 ^ 63`; the
one that is in use is `1024`. -/
def shortestScript (a b : Array α) (limit : Nat) : Checked (Option (List EditOp)) :=
  if a.size = 0 then .ok (some (List.replicate b.size .insert))
  else if b.size = 0 then .ok (some (List.replicate a.size .delete))
  else do
    let bound := min (a.size + b.size) limit
    match ← search a b (bound + 1) 0 (Frontier.start bound) [] with
    | none => return none
    | some trace =>
      let (_, ops) ← walkBack trace a.size b.size []
      return some ops

end StableFormat.ShortestScript
