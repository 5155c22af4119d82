import StableFormat.Pattern.Reader
import StableFormat.Pattern.Template

/-!
# Patterns

A compiled pattern, and the replacement of all its matches in a text.
-/

namespace StableFormat

open Pattern in
/-- A pattern that has been read and compiled. -/
structure Pattern where
  program : Program
  groups : List (Option String)
  deriving Repr, Inhabited

namespace Pattern

/-- The largest number of states that a pattern may need. -/
def maxSize : Nat := 10 * Nat.pow 2 20 / 32

/-- Compiles a pattern, in which `^` and `$` match at the ends of lines. -/
def compile (text : String) : Except PatternError Pattern :=
  match Expr.read { multiLine := true } text with
  | .ok (e, groups) =>
    if e.size ≤ maxSize then .ok ⟨.ofExpr e groups.length, groups⟩ else .error .tooLarge
  | .error e => .error e

/-- The text with every match replaced; the matches are given in order from a position on. -/
def substituteMatches (replacement : Match → List Char) (text : Array Char) (position : Nat) :
    List Match → List Char
  | [] => (text.extract position text.size).toList
  | m :: rest =>
    (text.extract position m.start).toList ++
      (replacement m ++ substituteMatches replacement text m.stop rest)

/-- Replaces all matches in a text by a template. -/
def replaceAll (pattern : Pattern) (template : Template) (text : String) : String :=
  let chars := text.toList.toArray
  String.ofList <|
    substituteMatches (template.expand pattern.groups chars) chars 0
      (pattern.program.allMatches text.toList)

end Pattern

end StableFormat
