/-!
# Lines of a text

A text is a list of characters. This module cuts it into lines in the two ways that the library
needs: with every line keeping the `\n` that ends it (the unit of comparison of a diff), and as the
pieces between separators (the unit of layout of a report).
-/

namespace StableFormat.Text

/-- The lines of a text, each with the `\n` that ends it. Only the last one may lack it, and no line
is empty. -/
def terminatedLines (cs : List Char) : List (List Char) :=
  cs.foldr
    (fun c lines =>
      if c = '\n' then [c] :: lines
      else
        match lines with
        | [] => [[c]]
        | line :: rest => (c :: line) :: rest)
    []

/-- The pieces between the occurrences of a separator: always one more than there are separators. -/
def splitAtChar (sep : Char) (cs : List Char) : List (List Char) :=
  cs.foldr
    (fun c pieces =>
      if c = sep then [] :: pieces
      else
        match pieces with
        | [] => [[c]]
        | piece :: rest => (c :: piece) :: rest)
    [[]]

/-- Joins pieces with a separator between neighbours. -/
def joinWithChar (sep : Char) : List (List Char) → List Char
  | [] => []
  | [piece] => piece
  | piece :: rest => piece ++ sep :: joinWithChar sep rest

/-- The text without the longest run of characters of a class at its end. -/
def dropTrailing (p : Char → Bool) (cs : List Char) : List Char :=
  cs.foldr (fun c rest => if p c && rest.isEmpty then [] else c :: rest) []

/-- The terminated lines of a string. -/
def linesOf (s : String) : List String :=
  (terminatedLines s.toList).map String.ofList

/-- The pieces of a string between occurrences of a separator. -/
def splitString (sep : Char) (s : String) : List String :=
  (splitAtChar sep s.toList).map String.ofList

/-- Strings joined with a separator between neighbours. -/
def joinStrings (sep : Char) (pieces : List String) : String :=
  String.ofList (joinWithChar sep (pieces.map String.toList))

end StableFormat.Text
