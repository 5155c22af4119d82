import StableFormat.Text.Substitution

/-!
# Visible white space

Trailing blanks and changed line endings cannot be seen in a terminal. The changed lines of a diff
are therefore written with a glyph for each blank, carriage return and line feed.
-/

namespace StableFormat

/-- The text that stands for each of the four characters. -/
structure Glyphs where
  space : String
  tab : String
  cr : String
  lf : String
  deriving DecidableEq, Repr

namespace Glyphs

/-- Single characters that hardly occur in a source text. -/
def fancy : Glyphs := ⟨"·", "⇥", "␍", "␊"⟩

/-- Backslash escapes, for terminals without the fancy characters. -/
def simple : Glyphs := ⟨" ", "\\t", "\\r", "\\n"⟩

/-- The glyph of a character: the character itself unless it is one of the four. -/
def ofChar (g : Glyphs) (c : Char) : List Char :=
  if c = ' ' then g.space.toList
  else if c = '\t' then g.tab.toList
  else if c = '\r' then g.cr.toList
  else if c = '\n' then g.lf.toList
  else [c]

/-- A line, its ending included, with visible white space. -/
def visualize (g : Glyphs) (line : String) : String :=
  String.ofList (line.toList.flatMap g.ofChar)

/-- Writes the characters back for their glyphs, one glyph after the other. Text that holds glyphs
of its own is not restored. -/
def devisualize (g : Glyphs) (line : String) : String :=
  Text.replaceLiteral g.lf "\n" <|
  Text.replaceLiteral g.cr "\r" <|
  Text.replaceLiteral g.tab "\t" <|
  Text.replaceLiteral g.space " " line

end Glyphs

end StableFormat
