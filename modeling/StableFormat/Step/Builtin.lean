import StableFormat.Checked
import StableFormat.Text.Lines
import StableFormat.Text.Scan
import StableFormat.Text.WhiteSpace

/-!
# Built-in steps

The transforms that every configuration can name, apart from replacement by a pattern. All work on
text with `\n` endings.
-/

namespace StableFormat.Builtin

open Text

/-- Removes the spaces and tabs at the end of every line. -/
def trimTrailingBlanks (text : String) : String :=
  String.ofList (replaceMatches trailingBlanks (fun _ => []) none text.toList)

/-- Removes all white space at the end of the text and ends it with one `\n`. -/
def endWithNewline (text : String) : String :=
  String.ofList (dropTrailing isWhiteSpace text.toList ++ ['\n'])

/-- What indentation is made of. -/
inductive IndentStyle where
  | spaces
  | tabs
  deriving DecidableEq, Repr, Inhabited

namespace IndentStyle

/-- The name of a style in configuration files. -/
def label : IndentStyle → String
  | spaces => "spaces"
  | tabs => "tabs"

/-- The style of a name. -/
def ofLabel? (name : String) : Option IndentStyle :=
  [spaces, tabs].find? (·.label = name)

end IndentStyle

/-- The column after a character, when a tab goes on to the next multiple of `width`. -/
def advance (width column : Nat) (c : Char) : Checked Nat :=
  Checked.add column (if c = '\t' then width - column % width else 1)

/-- The column at which a run of blanks ends. -/
def columnAfter (width : Nat) (run : List Char) : Checked Nat :=
  run.foldlM (advance width) 0

/-- How many tabs, and how many spaces behind them, reach a column: spaces only, or as many tabs as
fit and then spaces. -/
def IndentStyle.counts (style : IndentStyle) (width column : Nat) : Nat × Nat :=
  match style with
  | .spaces => (0, column)
  | .tabs => (column / width, column % width)

/-- Indentation that reaches a column. -/
def indentation (style : IndentStyle) (width column : Nat) : List Char :=
  let (tabs, spaces) := style.counts width column
  List.replicate tabs '\t' ++ List.replicate spaces ' '

/-- Indentation that reaches the same column as a run of blanks. -/
def reindentRun (style : IndentStyle) (width : Nat) (run : List Char) : Checked (List Char) := do
  let column ← columnAfter width run
  let (tabs, spaces) := style.counts width column
  Checked.reserve (tabs + spaces)
  return indentation style width column

/-- Replaces the blanks at the start of every line; they reach the same column as before. -/
def reindent (style : IndentStyle) (width : Nat) (text : String) : Checked String := do
  return String.ofList (← replaceMatchesM leadingBlanks (reindentRun style width) none text.toList)

end StableFormat.Builtin
