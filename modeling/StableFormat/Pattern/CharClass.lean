import StableFormat.Text.CharTable.Alphabetic
import StableFormat.Text.CharTable.WordExtension
import StableFormat.Text.CharTable.DecimalDigit
import StableFormat.Text.CharTable.CaseOrbit
import StableFormat.Text.WhiteSpace

/-!
# Character classes of patterns

A class is a set of characters, built from ranges and tables by the operations that a pattern can
write between brackets.
-/

namespace StableFormat.Pattern

open Text

/-- A set of characters. -/
inductive CharClass where
  /-- No character. -/
  | none
  /-- The characters of a range, both ends included. -/
  | range (lo hi : Char)
  /-- The characters of a property. -/
  | table (t : CharTable)
  | union (a b : CharClass)
  | intersection (a b : CharClass)
  | difference (a b : CharClass)
  | symmetricDifference (a b : CharClass)
  | complement (a : CharClass)
  /-- The characters that differ in case only from a member. -/
  | anyCase (a : CharClass)
  deriving Repr, Inhabited

namespace CharClass

/-- Membership of a character. -/
def contains : CharClass → Char → Bool
  | none, _ => false
  | range lo hi, c => lo ≤ c && c ≤ hi
  | table t, c => t.contains c
  | union a b, c => a.contains c || b.contains c
  | intersection a b, c => a.contains c && b.contains c
  | difference a b, c => a.contains c && !b.contains c
  | symmetricDifference a b, c => a.contains c != b.contains c
  | complement a, c => !a.contains c
  | anyCase a, c => (caseVariants c).any a.contains

/-- The class of one character. -/
def single (c : Char) : CharClass :=
  range c c

/-- The class of several ranges. -/
def ofRanges (ranges : List (Char × Char)) : CharClass :=
  ranges.foldl (fun cls (lo, hi) => union cls (range lo hi)) none

/-- The decimal digits of all scripts. -/
def digit : CharClass :=
  table CharTable.decimalDigit

/-- White space. -/
def space : CharClass :=
  table whiteSpaceRanges

/-- Letters, marks, digits and connectors of all scripts. -/
def word : CharClass :=
  union (table CharTable.alphabetic) (table CharTable.wordExtension)

/-- The class of a name between `[:` and `:]`; these classes hold ASCII characters only. -/
def ofAsciiName? (name : String) : Option CharClass :=
  let lower := ('a', 'z')
  let upper := ('A', 'Z')
  let digits := ('0', '9')
  match name with
  | "alnum" => some (ofRanges [digits, upper, lower])
  | "alpha" => some (ofRanges [upper, lower])
  | "ascii" => some (range '\x00' '\x7f')
  | "blank" => some (ofRanges [('\t', '\t'), (' ', ' ')])
  | "cntrl" => some (ofRanges [('\x00', '\x1f'), ('\x7f', '\x7f')])
  | "digit" => some (ofRanges [digits])
  | "graph" => some (range '!' '~')
  | "lower" => some (ofRanges [lower])
  | "print" => some (range ' ' '~')
  | "punct" => some (ofRanges [('!', '/'), (':', '@'), ('[', '\x60'), ('\x7b', '~')])
  | "space" => some (ofRanges [('\t', '\r'), (' ', ' ')])
  | "upper" => some (ofRanges [upper])
  | "word" => some (ofRanges [digits, upper, ('_', '_'), lower])
  | "xdigit" => some (ofRanges [digits, ('A', 'F'), ('a', 'f')])
  | _ => Option.none

end CharClass

/-- The character counts as part of a word. -/
def isWordChar (c : Char) : Bool :=
  CharClass.word.contains c

end StableFormat.Pattern
