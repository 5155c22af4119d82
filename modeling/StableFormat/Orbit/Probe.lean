/-!
# Probing a transform for a stable result

A formatter `F` should satisfy `F (F x) = F x`. When it does not, the orbit `F x`, `F (F x)`, … is
followed for a bounded number of applications and classified, and a text is chosen that can safely
be written back:

* well-behaved: `F x` is a fixed point, and the safe output;
* converging: a later value is a fixed point, and the safe output;
* cycling: a value comes back; the safe output is the first member of the cycle;
* diverging: neither happens within the bound; the safe output is the text that it started from.
-/

namespace StableFormat

/-- How the orbit of a text behaves. -/
inductive Classification where
  | wellBehaved
  | converge
  /-- `length` values repeat. -/
  | cycle (length : Nat)
  | diverge
  deriving DecidableEq, Repr, Inhabited

namespace Classification

/-- Anything but well-behaved. -/
def isMisbehaved (c : Classification) : Bool :=
  c ≠ wellBehaved

/-- Cycles and divergences cannot be settled by writing a text once. -/
def isUnstable : Classification → Bool
  | cycle _ | diverge => true
  | _ => false

/-- A short name. -/
def label : Classification → String
  | wellBehaved => "well-behaved"
  | converge => "converge"
  | cycle _ => "cycle"
  | diverge => "diverge"

/-- The short name; a cycle with its length. -/
def describe : Classification → String
  | cycle length => "cycle(" ++ toString length ++ ")"
  | c => c.label

end Classification

/-- The outcome of probing one text. -/
structure Probe where
  start : String
  classification : Classification
  /-- The values kept for diagnosis: none for a clean text, the cycle for a cycle, and else all that
  were computed. -/
  orbit : List String
  /-- The text to write back. -/
  safeOutput : String
  deriving DecidableEq, Repr, Inhabited

namespace Probe

/-- The first application left the text as it was. -/
def isClean (p : Probe) : Bool :=
  p.orbit.isEmpty

/-- The transform does not settle after one application. -/
def isMisbehaved (p : Probe) : Bool :=
  p.classification.isMisbehaved

/-- The safe output differs from the text that was probed. -/
def hasViolation (p : Probe) : Bool :=
  p.safeOutput ≠ p.start

/-- The outcome in words. -/
def description (p : Probe) : String :=
  let steps := toString p.orbit.length
  match p.classification with
  | .wellBehaved => if p.isClean then "is clean" else "converges after 1 step"
  | .converge => "converges after " ++ steps ++ " steps"
  | .cycle length => "cycles between " ++ toString length ++ " steps"
  | .diverge => "diverges after " ++ steps ++ " steps"

end Probe

/-- A result, and how often a transform was applied to get it. -/
structure Counted (α : Type) where
  result : α
  calls : Nat
  deriving Repr

/-- The number of applications after which an orbit counts as diverging, unless set otherwise. -/
def defaultMaxIterations : Nat := 10

/-- The smallest bound that can tell a fixed point from a change. -/
def minIterations : Nat := 2

variable {ε : Type}

/-- Follows the orbit after its first value. `history` holds the values so far, all different, and
`current` is the last of them; at most `budget` more values are computed. -/
def followOrbit (transform : String → Except ε String) (start : String) :
    (budget : Nat) → (history : List String) → (current : String) → (calls : Nat) →
      Counted (Except ε Probe)
  | 0, history, _, calls => ⟨.ok ⟨start, .diverge, history, start⟩, calls⟩
  | budget + 1, history, current, calls =>
    match transform current with
    | .error e => ⟨.error e, calls + 1⟩
    | .ok next =>
      if next = current then
        let classification : Classification :=
          if history.length = 1 then .wellBehaved else .converge
        ⟨.ok ⟨start, classification, history, next⟩, calls + 1⟩
      else if next ∈ history then
        let block := history.dropWhile (· ≠ next)
        ⟨.ok ⟨start, .cycle block.length, block, next⟩, calls + 1⟩
      else followOrbit transform start budget (history ++ [next]) next (calls + 1)

/-- Classifies the orbit of a text under a transform that is applied at most `max bound 2` times,
and counts the applications. A failure of the transform is the outcome as it stands. -/
def probeCounted (bound : Nat) (transform : String → Except ε String) (start : String) :
    Counted (Except ε Probe) :=
  match transform start with
  | .error e => ⟨.error e, 1⟩
  | .ok first =>
    if first = start then ⟨.ok ⟨start, .wellBehaved, [], first⟩, 1⟩
    else followOrbit transform start (max bound minIterations - 1) [first] first 1

/-- Classifies the orbit of a text under a transform. -/
def probe (bound : Nat) (transform : String → Except ε String) (start : String) :
    Except ε Probe :=
  (probeCounted bound transform start).result

end StableFormat
