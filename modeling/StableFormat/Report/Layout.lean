import StableFormat.Checked
import StableFormat.Text.Lines

/-!
# Layout of a report

A report has room for a limited number of lines and of files. The files are taken in the order of
their paths. Each file falls into one of three tiers: it gets a section with its path and as many
lines of its body as there is room for; or, once the room is used up, it is only named; or, if there
would be too many names, it is only counted. Paths and body lines of sections use up the room, all
else does not.
-/

namespace StableFormat

/-- The room that a report has. -/
structure ReportLimits where
  maxMessageLines : Nat := 50
  maxFilesToList : Nat := 10
  deriving DecidableEq, Repr, Inhabited

/-- A file that is shown with its body, and the number of body lines that did not fit. -/
structure Section where
  path : String
  body : List String
  withheld : Nat
  deriving DecidableEq, Repr, Inhabited

/-- The tier of every file. -/
structure Layout where
  sections : List Section
  named : List String
  counted : Nat
  deriving DecidableEq, Repr, Inhabited

/-- The lines of a body; an empty body has none. -/
def bodyLines (body : String) : List String :=
  if body.isEmpty then [] else Text.splitString '\n' body

/-- The section of a file, when so many lines of room have been used before it. The path takes one
line, and the body what is left. -/
def Section.fitted (limits : ReportLimits) (used : Nat) (path : String) (lines : List String) :
    Section :=
  let fit := min lines.length (limits.maxMessageLines - (used + 1))
  ⟨path, lines.take fit, lines.length - fit⟩

/-- There is room for another section. -/
def ReportLimits.haveRoom (limits : ReportLimits) (used shown : Nat) : Bool :=
  used < limits.maxMessageLines && shown < limits.maxFilesToList

namespace Layout

/-- Names the files that got no section, or counts them if they are too many. -/
def ofTiers (limits : ReportLimits) (sections : List Section) (remaining : List String) : Layout :=
  if limits.maxFilesToList ≤ remaining.length then ⟨sections, [], remaining.length⟩
  else ⟨sections, remaining, 0⟩

/-- The lines of room that are used up. -/
def budgetUsed (l : Layout) : Nat :=
  l.sections.foldr (fun s used => 1 + s.body.length + used) 0

/-- Something is missing from the report. -/
def isTruncated (l : Layout) : Bool :=
  l.counted > 0 || !l.named.isEmpty || l.sections.any (·.withheld > 0)

/-- The lines of a section in the text of a report. -/
def sectionLines (s : Section) : List String :=
  let more := "  ... (" ++ toString s.withheld ++ " more lines that didn't fit)"
  ("  " ++ s.path) :: s.body.map ("    " ++ ·) ++ (if s.withheld > 0 then [more] else [])

/-- The lines of a report. -/
def lines (limits : ReportLimits) (l : Layout) : List String :=
  ["The following files have format violations:"] ++
  l.sections.flatMap sectionLines ++
  (if l.named.isEmpty then []
    else "Violations also present in:" :: l.named.map ("  " ++ ·)) ++
  (if l.counted > 0 then
    ["Violations also present in " ++ toString l.counted ++ " other files."] else []) ++
  (if l.isTruncated then
    ["You might want to adjust --max-message-lines=" ++ toString limits.maxMessageLines ++
      " --max-files-to-list=" ++ toString limits.maxFilesToList ++ " to see more violations"]
    else []) ++
  ["Run 'padcell apply' to fix these violations."]

/-- The text of a report; every line ends with `\n`. -/
def text (limits : ReportLimits) (l : Layout) : String :=
  String.join ((l.lines limits).map (· ++ "\n"))

/-- Writes the text of a report. Room is made before for as many lines of 64 bytes as the limits
allow, whether there are so many or not. -/
def render (limits : ReportLimits) (l : Layout) : Checked String := do
  Checked.reserve (← Checked.mul limits.maxMessageLines 64)
  return l.text limits

end Layout

end StableFormat
