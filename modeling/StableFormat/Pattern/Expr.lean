import StableFormat.Pattern.CharClass

/-!
# Pattern expressions

The meaning of a pattern, after flags have been resolved: what it matches character by character,
where it asks for a position, and which parts it captures.
-/

namespace StableFormat.Pattern

/-- A condition on a position of the text. -/
inductive Anchor where
  | textStart
  | textEnd
  | lineStart
  | lineEnd
  /-- The start of a line when `\r`, `\n` and `\r\n` all end one. -/
  | anyLineStart
  /-- The end of a line when `\r`, `\n` and `\r\n` all end one. -/
  | anyLineEnd
  | wordBoundary
  | insideOrOutsideWord
  | wordStart
  | wordEnd
  /-- No word character before the position. -/
  | wordStartHalf
  /-- No word character after the position. -/
  | wordEndHalf
  deriving DecidableEq, Repr, Inhabited

/-- The condition holds between the characters `before` and `after`; `none` is an end of the
text. -/
def Anchor.holds (before after : Option Char) : Anchor → Bool
  | textStart => before.isNone
  | textEnd => after.isNone
  | lineStart => before.isNone || before = some '\n'
  | lineEnd => after.isNone || after = some '\n'
  | anyLineStart =>
    before.isNone || before = some '\n' || (before = some '\r' && after ≠ some '\n')
  | anyLineEnd =>
    after.isNone || after = some '\r' || (after = some '\n' && before ≠ some '\r')
  | wordBoundary => before.any isWordChar != after.any isWordChar
  | insideOrOutsideWord => before.any isWordChar == after.any isWordChar
  | wordStart => !before.any isWordChar && after.any isWordChar
  | wordEnd => before.any isWordChar && !after.any isWordChar
  | wordStartHalf => !before.any isWordChar
  | wordEndHalf => !after.any isWordChar

/-- What a pattern matches. Of several ways to match, the first one in the order of writing is
taken: an earlier branch before a later one, more rounds of a greedy repetition before fewer. -/
inductive Expr where
  | empty
  | chars (cls : CharClass)
  | anchor (a : Anchor)
  | capture (index : Nat) (body : Expr)
  | concat (first second : Expr)
  | branch (first second : Expr)
  /-- At least `min` and at most `max` rounds. -/
  | rep (body : Expr) (min : Nat) (max : Option Nat) (greedy : Bool)
  deriving Repr, Inhabited

namespace Expr

/-- The expression can match the empty text. -/
def nullable : Expr → Bool
  | empty | anchor _ => true
  | chars _ => false
  | capture _ e => e.nullable
  | concat a b => a.nullable && b.nullable
  | branch a b => a.nullable || b.nullable
  | rep e min _ _ => min == 0 || e.nullable

/-- The expression matches nothing but the empty text. -/
def zeroWidth : Expr → Bool
  | empty | anchor _ => true
  | chars _ => false
  | capture _ e => e.zeroWidth
  | concat a b => a.zeroWidth && b.zeroWidth
  | branch a b => a.zeroWidth && b.zeroWidth
  | rep e _ max _ => max == some 0 || e.zeroWidth

/-- A repetition; rounds beyond the first of an expression without width change nothing. -/
def repeated (e : Expr) (min : Nat) (max : Option Nat) (greedy : Bool) : Expr :=
  if e.zeroWidth then rep e (min.min 1) (some ((max.getD 1).min 1)) greedy
  else rep e min max greedy

/-- The number of instructions that a matcher of the expression has, about. -/
def size : Expr → Nat
  | empty => 0
  | chars _ | anchor _ => 1
  | capture _ e => e.size + 2
  | concat a b => a.size + b.size
  | branch a b => a.size + b.size + 1
  | rep e min none _ => (min.max 1) * e.size + 2
  | rep e min (some max) _ => min * e.size + (max - min) * (e.size + 1)

/-- Expressions one after the other. -/
def sequence (es : List Expr) : Expr :=
  match es with
  | [] => empty
  | e :: rest => rest.foldl concat e

end Expr

end StableFormat.Pattern
