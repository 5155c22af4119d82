import StableFormat.Diff.Edits
import StableFormat.Text.Glyphs
import StableFormat.Text.Lines

/-!
# Line differences of texts

Two texts are compared line by line, with the endings of the lines: a changed ending and a missing
last one are differences. The edits are shown in hunks with some unchanged lines around them, in the
style of a unified diff. Unchanged lines are shown as they are, changed ones with visible white
space.
-/

namespace StableFormat

/-- The number of unchanged lines shown around an edit. -/
def contextLines : Nat := 3

/-- A line of a hunk. -/
inductive HunkLine where
  | context (line : String)
  | removed (line : String)
  | added (line : String)
  deriving DecidableEq, Repr, Inhabited

/-- A part of a difference: the lines from `startA` to before `endA` of the first text against those
from `startB` to before `endB` of the second, both counted from zero. -/
structure Hunk where
  startA : Nat
  endA : Nat
  startB : Nat
  endB : Nat
  lines : List HunkLine
  deriving DecidableEq, Repr, Inhabited

/-- The lines of two texts, and the edits between them. -/
structure FileDiff where
  a : Array String
  b : Array String
  edits : List Edit
  deriving Repr, Inhabited

namespace HunkLine

/-- The text of a line of a hunk. -/
def render (glyphs : Glyphs) : HunkLine → String
  | context line =>
    String.ofList (' ' :: Text.dropTrailing (fun c => c = '\n' || c = '\r') line.toList)
  | removed line => "-" ++ glyphs.visualize line
  | added line => "+" ++ glyphs.visualize line

end HunkLine

namespace Hunk

/-- A range of lines in a header, counted from one: where it starts and how long it is. The length
is left out if it is one, and an empty range starts before its place. -/
def range (first length : Nat) : String :=
  match length with
  | 0 => toString (first - 1) ++ ",0"
  | 1 => toString first
  | _ => toString first ++ "," ++ toString length

/-- The header of a hunk. -/
def header (h : Hunk) : String :=
  "@@ -" ++ range (h.startA + 1) (h.endA - h.startA) ++ " +" ++
    range (h.startB + 1) (h.endB - h.startB) ++ " @@"

/-- The header and the lines of a hunk. -/
def renderLines (glyphs : Glyphs) (h : Hunk) : List String :=
  h.header :: h.lines.map (·.render glyphs)

end Hunk

namespace FileDiff

/-- The line difference of two texts. -/
def compute (actual expected : String) : FileDiff :=
  let a := Text.linesOf actual
  let b := Text.linesOf expected
  ⟨a.toArray, b.toArray, StableFormat.edits a b⟩

/-- The texts have the same lines. -/
def isEmpty (d : FileDiff) : Bool :=
  d.edits.isEmpty

/-- The lines from `first` to before `last` of the second text, joined. -/
def expectedText (d : FileDiff) (first last : Nat) : String :=
  String.join (d.b.extract first last).toList

/-- Two neighbouring edits are so far apart in both texts that they get hunks of their own. -/
def farApart (e next : Edit) : Checked Bool := do
  let gapA ← Checked.sub next.beginA e.endA
  if gapA ≤ 2 * contextLines + 1 then return false
  let gapB ← Checked.sub next.beginB e.endB
  return gapB > 2 * contextLines + 1

/-- The edits of each hunk: a first one and the others. -/
def hunkEdits : List Edit → Checked (List (Edit × List Edit))
  | [] => .ok []
  | e :: rest => do
    match ← hunkEdits rest with
    | [] => return [(e, [])]
    | (next, more) :: others =>
      if ← farApart e next then return (e, []) :: (next, more) :: others
      else return (e, next :: more) :: others

/-- The edit at hand and the later ones, once the lines up to `lineA` and `lineB` are done. -/
def advanceEdit (lineA lineB : Nat) (edit : Edit) : List Edit → Edit × List Edit
  | [] => (edit, [])
  | next :: later =>
    if lineA = edit.endA ∧ lineB = edit.endB then (next, later) else (edit, next :: later)

/-- The lines of a hunk from the lines `lineA` and `lineB` on, up to its ends. The edit at hand is
`edit`, and the later ones of the hunk are `rest`. A line before or behind the edit is context; the
lines that the edit removes come before those that it adds. -/
def hunkLines (d : FileDiff) (endA endB lineA lineB : Nat) (edit : Edit) (rest : List Edit) :
    Checked (List HunkLine) :=
  if lineA < endA ∨ lineB < endB then
    if lineA < edit.beginA ∨ (edit.endA ≤ lineA ∧ edit.endB ≤ lineB) then
      if hA : lineA < d.a.size then
        let (e, es) := advanceEdit (lineA + 1) (lineB + 1) edit rest
        (hunkLines d endA endB (lineA + 1) (lineB + 1) e es).map (.context d.a[lineA] :: ·)
      else .error (.position lineA)
    else if lineA < edit.endA then
      if hA : lineA < d.a.size then
        let (e, es) := advanceEdit (lineA + 1) lineB edit rest
        (hunkLines d endA endB (lineA + 1) lineB e es).map (.removed d.a[lineA] :: ·)
      else .error (.position lineA)
    else
      if hB : lineB < d.b.size then
        let (e, es) := advanceEdit lineA (lineB + 1) edit rest
        (hunkLines d endA endB lineA (lineB + 1) e es).map (.added d.b[lineB] :: ·)
      else .error (.position lineB)
  else .ok []
termination_by (d.a.size - lineA) + (d.b.size - lineB)

/-- The hunk of a group of edits. -/
def hunkOf (d : FileDiff) (first : Edit) (rest : List Edit) : Checked Hunk := do
  let last := rest.getLast?.getD first
  let startA := first.beginA - contextLines
  let startB := first.beginB - contextLines
  let endA := min (last.endA + contextLines) d.a.size
  let endB := min (last.endB + contextLines) d.b.size
  let _ ← Checked.sub endA startA
  let _ ← Checked.sub endB startB
  return ⟨startA, endA, startB, endB, ← d.hunkLines endA endB startA startB first rest⟩

/-- The hunks of a difference. -/
def hunks (d : FileDiff) : Checked (List Hunk) := do
  (← hunkEdits d.edits).mapM fun (first, rest) => d.hunkOf first rest

/-- The text of all hunks. It does not end with a line break, and is empty without any hunk. -/
def render (d : FileDiff) (glyphs : Glyphs) : String :=
  match d.hunks with
  | .ok hunks => Text.joinStrings '\n' (hunks.flatMap (·.renderLines glyphs))
  | .error _ => ""

end FileDiff

/-- The hunks between two texts, as text. -/
def renderDiff (actual expected : String) (glyphs : Glyphs) : String :=
  (FileDiff.compute actual expected).render glyphs

end StableFormat
