/-!
# Leftmost replacement

A rule looks at a position of a text, at the character before it and at the characters after it,
and says how many characters it takes there. Replacement goes through the text from the left: where
the rule takes something, that part is replaced and the scan goes on behind it; elsewhere one
character is kept. This is leftmost-first replacement of all matches, for rules that never match
the empty text.
-/

namespace StableFormat.Text

/-- How many characters a rule takes at a position, given the character before it and the rest of
the text; `0` where it does not match. -/
abbrev Rule := Option Char → List Char → Nat

/-- Replaces every leftmost match of `rule` with `f`; `before` is the character before the text. -/
def replaceMatches (rule : Rule) (f : List Char → List Char) (before : Option Char) :
    List Char → List Char
  | [] => []
  | c :: cs =>
    match rule before (c :: cs) with
    | 0 => c :: replaceMatches rule f (some c) cs
    | n + 1 =>
      f (c :: cs.take n) ++
        replaceMatches rule f (some ((cs.take n).getLast?.getD c)) (cs.drop n)
termination_by cs => cs.length
decreasing_by
  · simp
  · simp only [List.length_drop, List.length_cons]
    omega

/-- Replaces every leftmost match of `rule` with what `f` makes of it, one after the other, until `f`
fails. -/
def replaceMatchesM {ε : Type} (rule : Rule) (f : List Char → Except ε (List Char))
    (before : Option Char) : List Char → Except ε (List Char)
  | [] => .ok []
  | c :: cs =>
    match rule before (c :: cs) with
    | 0 => do return c :: (← replaceMatchesM rule f (some c) cs)
    | n + 1 => do
      let replaced ← f (c :: cs.take n)
      let rest ← replaceMatchesM rule f (some ((cs.take n).getLast?.getD c)) (cs.drop n)
      return replaced ++ rest
termination_by cs => cs.length
decreasing_by
  · simp
  · simp only [List.length_drop, List.length_cons]
    omega

/-- Spaces and tabs, the characters of indentation. -/
def isBlank (c : Char) : Bool :=
  c = ' ' || c = '\t'

/-- The whole text, or the part before a `\n`, ends here. -/
def atLineEnd : List Char → Bool
  | [] => true
  | c :: _ => c = '\n'

/-- The position is the start of the text or follows a `\n`. -/
def atLineStart : Option Char → Bool
  | none => true
  | some c => c = '\n'

/-- A run of blanks that reaches to the end of its line. -/
def trailingBlanks : Rule := fun _ cs =>
  let run := cs.takeWhile isBlank
  if atLineEnd (cs.drop run.length) then run.length else 0

/-- A run of blanks at the start of its line. -/
def leadingBlanks : Rule := fun before cs =>
  if atLineStart before then (cs.takeWhile isBlank).length else 0

end StableFormat.Text
