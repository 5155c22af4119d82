import StableFormat.Pattern.Expr

/-!
# Matching programs

A pattern expression is turned into a small program whose states are tried in order of preference.
Every state names its successors, so that a matcher only has to follow them.
-/

namespace StableFormat.Pattern

/-- A state of a program. -/
inductive Instr where
  /-- The pattern has matched. -/
  | accept
  /-- Takes one character of a class. -/
  | take (cls : CharClass) (next : Nat)
  /-- Goes on at the first state or, failing that, at the second. -/
  | fork (first second : Nat)
  | check (anchor : Anchor) (next : Nat)
  /-- Notes the position in a slot. -/
  | mark (slot next : Nat)
  deriving Repr, Inhabited

/-- The states of a program by their number. -/
abbrev Code := Array Instr

namespace Code

/-- Adds a state; its number comes first in the result. -/
def add (code : Code) (i : Instr) : Nat × Code :=
  (code.size, code.push i)

/-- A fork that prefers another round of a repetition if it is greedy, and its end if not. -/
def loop (greedy : Bool) (again next : Nat) : Instr :=
  if greedy then .fork again next else .fork next again

/-- `count` copies of a part, one after the other, in front of the state `next`. -/
def copies (part : Nat → Code → Nat × Code) : (count next : Nat) → Code → Nat × Code
  | 0, next, code => (next, code)
  | count + 1, next, code =>
    let (start, code) := part next code
    copies part count start code

/-- Up to `count` copies of a part in front of the state `next`, each inside the one before it. -/
def optionalCopies (part : Nat → Code → Nat × Code) (greedy : Bool) (exit : Nat) :
    (count next : Nat) → Code → Nat × Code
  | 0, next, code => (next, code)
  | count + 1, next, code =>
    let (start, code) := part next code
    let (choice, code) := code.add (loop greedy start exit)
    optionalCopies part greedy exit count choice code

/-- At least one round of a part: a state behind it leads back to its start. -/
def rounds (part : Nat → Code → Nat × Code) (greedy : Bool) (next : Nat) (code : Code) :
    Nat × Nat × Code :=
  let (again, code) := code.add .accept
  let (start, code) := part again code
  (start, again, code.setIfInBounds again (loop greedy start next))

end Code

/-- Adds the states of an expression in front of the state `next`; the number of its first state
comes first in the result. A repetition of something that can be empty is written as an optional
repetition of at least one round, which keeps the order of preference. -/
def Expr.emit : Expr → (next : Nat) → Code → Nat × Code
  | empty, next, code => (next, code)
  | chars cls, next, code => code.add (.take cls next)
  | anchor a, next, code => code.add (.check a next)
  | capture index e, next, code =>
    let (close, code) := code.add (.mark (2 * index + 1) next)
    let (start, code) := e.emit close code
    code.add (.mark (2 * index) start)
  | concat a b, next, code =>
    let (second, code) := b.emit next code
    a.emit second code
  | branch a b, next, code =>
    let (second, code) := b.emit next code
    let (first, code) := a.emit next code
    code.add (.fork first second)
  | rep e min none greedy, next, code =>
    let (start, again, code) := Code.rounds e.emit greedy next code
    match min with
    | 0 => if e.nullable then code.add (Code.loop greedy start next) else (again, code)
    | min + 1 => Code.copies e.emit min start code
  | rep e min (some max) greedy, next, code =>
    let (start, code) := Code.optionalCopies e.emit greedy next (max - min) next code
    Code.copies e.emit min start code

/-- A program: its states, the first of them, and the number of slots that it marks. -/
structure Program where
  code : Code
  start : Nat
  slots : Nat
  deriving Repr, Inhabited

/-- The program of an expression with some number of groups. The slots `0` and `1` mark the whole
match, and each group has the two slots behind those of the group before it. -/
def Program.ofExpr (e : Expr) (groups : Nat) : Program :=
  let (start, code) := (Expr.capture 0 e).emit 0 #[.accept]
  ⟨code, start, 2 * (groups + 1)⟩

end StableFormat.Pattern
