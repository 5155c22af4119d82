/-!
# Checked computations

Positions can be computed wrongly, and numbers can become larger than there is room for. Here every
access, and every operation on numbers that come from settings, is checked; one that leaves its range
ends the computation with the place where that happened. That a computation never goes astray is then
a statement about its result. Numbers have 64 bits, and no text has `2 ^ 63` bytes or more; how much
memory there is below that is left open. In a build that does not check sums and products, the
computation goes on with a wrong number instead; up to there both builds agree.
-/

namespace StableFormat

/-- A computation that left its ranges. -/
inductive Stray where
  /-- There is no element at this position. -/
  | position (i : Int)
  /-- A difference of natural numbers is below zero. -/
  | difference (a b : Nat)
  /-- A sum has more than 64 bits. -/
  | sum (a b : Nat)
  /-- A product has more than 64 bits. -/
  | product (a b : Nat)
  /-- No text can have so many bytes. -/
  | capacity (bytes : Nat)
  deriving DecidableEq, Repr, Inhabited

/-- What is wrong, in words. -/
def Stray.message : Stray → String
  | position _ => "index out of bounds"
  | difference .. => "attempt to subtract with overflow"
  | sum .. => "attempt to add with overflow"
  | product .. => "attempt to multiply with overflow"
  | capacity _ => "capacity overflow"

/-- A result, or the place where the computation went astray. -/
abbrev Checked := Except Stray

namespace Checked

variable {α : Type}

/-- The element at a position, which may be computed with signs. -/
def read (xs : Array α) (i : Int) : Checked α :=
  if 0 ≤ i then
    match xs[i.toNat]? with
    | some x => .ok x
    | none => .error (.position i)
  else .error (.position i)

/-- The array with another element at a position. -/
def write (xs : Array α) (i : Int) (x : α) : Checked (Array α) :=
  if 0 ≤ i ∧ i.toNat < xs.size then .ok (xs.setIfInBounds i.toNat x) else .error (.position i)

/-- The elements from `first` to `last`, both included. -/
def slice (xs : Array α) (first last : Int) : Checked (Array α) :=
  if first < 0 then .error (.position first)
  else if last.toNat < xs.size ∧ first ≤ last + 1 then
    .ok (xs.extract first.toNat (last + 1).toNat)
  else .error (.position last)

/-- A difference that must not be negative. -/
def sub (a b : Nat) : Checked Nat :=
  if b ≤ a then .ok (a - b) else .error (.difference a b)

/-- A sum that must have 64 bits. -/
def add (a b : Nat) : Checked Nat :=
  if a + b < UInt64.size then .ok (a + b) else .error (.sum a b)

/-- A product that must have 64 bits. -/
def mul (a b : Nat) : Checked Nat :=
  if a * b < UInt64.size then .ok (a * b) else .error (.product a b)

/-- Every text has fewer bytes than this: they are counted by signed numbers of 64 bits. -/
def textLimit : Nat := UInt64.size / 2

/-- Makes room for a text of so many bytes. -/
def reserve (bytes : Nat) : Checked Unit :=
  if bytes < textLimit then .ok () else .error (.capacity bytes)

end Checked

end StableFormat
