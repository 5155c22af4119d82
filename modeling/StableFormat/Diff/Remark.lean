import StableFormat.Diff.FileDiff

/-!
# Remarks on edits

Inside a GitHub workflow, an edit is announced by an `::error` command, which shows it at its line
in the pull request. A command is one line; line breaks and separators in its parts are escaped.
-/

namespace StableFormat

/-- A remark at a line of a file. -/
structure Remark where
  path : String
  line : Nat
  message : String
  deriving DecidableEq, Repr, Inhabited

namespace Remark

/-- Escapes the message of a command. -/
def escapeData (s : String) : String :=
  Text.replaceLiteral "\n" "%0A" (Text.replaceLiteral "\r" "%0D" (Text.replaceLiteral "%" "%25" s))

/-- Escapes a property of a command, in which `:` and `,` are separators. -/
def escapeProperty (s : String) : String :=
  Text.replaceLiteral "," "%2C" (Text.replaceLiteral ":" "%3A" (escapeData s))

/-- The command of a remark. -/
def command (a : Remark) : String :=
  "::error file=" ++ escapeProperty a.path ++ ",line=" ++ toString a.line ++ "::" ++
    escapeData a.message

/-- The number of lines of new text that a remark shows. -/
def maxSuggestionLines : Nat := 20

/-- The ending of a noun after a number. -/
def plural (n : Nat) : String :=
  if n = 1 then "" else "s"

/-- The new text of an edit, cut off after so many lines. -/
def suggestion (d : FileDiff) (e : Edit) : String :=
  if e.lenB ≤ maxSuggestionLines then d.expectedText e.beginB e.endB
  else
    let left := e.lenB - maxSuggestionLines
    d.expectedText e.beginB (e.beginB + maxSuggestionLines) ++ "\n..." ++ toString left ++
      " more line" ++ plural left

/-- What to do about an edit, in words. Lines are counted from one. -/
def advice (d : FileDiff) (e : Edit) : String :=
  let lines := toString (e.beginA + 1) ++ ".." ++ toString e.endA
  let count (n : Nat) : String := toString n ++ " line" ++ plural n
  match e.kind with
  | .delete => "Remove " ++ count e.lenA ++ ": " ++ lines
  | .insert => "Insert " ++ count e.lenB ++ ":\n" ++ suggestion d e
  | .replace => "Replace " ++ count e.lenB ++ " " ++ lines ++ " with\n" ++ suggestion d e

/-- The remark on an edit of a file. -/
def ofEdit (path : String) (d : FileDiff) (e : Edit) : Remark :=
  ⟨path, e.beginA + 1, advice d e⟩

end Remark

/-- The commands that announce the edits of a file, in order. -/
def FileDiff.commands (d : FileDiff) (path : String) : List String :=
  d.edits.map fun e => (Remark.ofEdit path d e).command

end StableFormat
