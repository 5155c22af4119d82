import StableFormat.Proofs.Diff.HunkShape
import StableFormat.Proofs.Diff.Patch

/-!
# Proofs: a rendered difference is well formed

A reader who knows neither text takes a rendered difference apart: headers with four numbers, and
behind each one its lines with their marks. What is read are hunks whose numbers fit their lines, and
which show the edits between both texts.
-/

namespace StableFormat

/-- A hunk as it stands in a rendered difference: the numbers of its header, and its lines without
their marks. -/
structure ShownHunk where
  firstA : ℕ
  lengthA : ℕ
  firstB : ℕ
  lengthB : ℕ
  lines : List HunkLine
  deriving DecidableEq

/-- A line as it is shown behind its mark: context without its ending, and other lines with visible
white space. -/
def HunkLine.shown (g : Glyphs) : HunkLine → HunkLine
  | context line =>
    context (String.ofList (Text.dropTrailing (fun c => c = '\n' || c = '\r') line.toList))
  | removed line => removed (g.visualize line)
  | added line => added (g.visualize line)

/-- The number that a range is shown with: its first line, counted from one, or the line before it if
it is empty. -/
def shownFirst (start length : ℕ) : ℕ :=
  if length = 0 then start else start + 1

/-- A hunk as it is shown. -/
def Hunk.shown (g : Glyphs) (h : Hunk) : ShownHunk :=
  { firstA := shownFirst h.startA (h.endA - h.startA)
    lengthA := h.endA - h.startA
    firstB := shownFirst h.startB (h.endB - h.startB)
    lengthB := h.endB - h.startB
    lines := h.lines.map (·.shown g) }

/-! ## Reading a rendered difference -/

/-- The first number of a range and its length, which is one if it is missing. -/
def readShownRange (cs : List Char) : Option (ℕ × ℕ) :=
  match Text.splitAtChar ',' cs with
  | [first] => do return (← readNumber first, 1)
  | [first, length] => do return (← readNumber first, ← readNumber length)
  | _ => none

/-- The ranges of a header, behind its `@@ -`. -/
def readShownRanges (header : List Char) : Option ((ℕ × ℕ) × (ℕ × ℕ)) :=
  match header.dropWhile (· ≠ ' ') with
  | ' ' :: '+' :: rest =>
    if rest.dropWhile (· ≠ ' ') = [' ', '@', '@'] then do
      return (← readShownRange (header.takeWhile (· ≠ ' ')),
        ← readShownRange (rest.takeWhile (· ≠ ' ')))
    else none
  | _ => none

/-- A line of a hunk by its mark. -/
def readShownLine : List Char → Option HunkLine
  | ' ' :: line => some (.context (String.ofList line))
  | '-' :: line => some (.removed (String.ofList line))
  | '+' :: line => some (.added (String.ofList line))
  | _ => none

/-- The lines before the first header, and the hunks from there on. -/
def readPieces : List String → Option (List HunkLine × List ShownHunk)
  | [] => some ([], [])
  | piece :: pieces => do
    let (lines, hunks) ← readPieces pieces
    match Text.dropLiteral? ['@', '@', ' ', '-'] piece.toList with
    | some header =>
      let ((firstA, lengthA), (firstB, lengthB)) ← readShownRanges header
      return ([], ⟨firstA, lengthA, firstB, lengthB, lines⟩ :: hunks)
    | none => return ((← readShownLine piece.toList) :: lines, hunks)

/-- The hunks of a rendered difference; none if it is empty. -/
def readHunks (rendered : String) : Option (List ShownHunk) :=
  if rendered = "" then some []
  else
    match readPieces (Text.splitString '\n' rendered) with
    | some ([], hunks) => some hunks
    | _ => none

variable {g : Glyphs} {first length i : ℕ} {es : List Edit} {h : Hunk} {hs : List Hunk}
  {pieces : List String} {hunks : List ShownHunk} {a b : List String}

theorem readShownRange_range (first length : ℕ) :
    readShownRange (Hunk.range (first + 1) length).toList =
      some (shownFirst first length, length) := by
  rw [readShownRange, splitAtChar_range]
  match length with
  | 0 =>
    have hzero : readNumber ['0'] = some 0 := readNumber_toDigits 0
    simp [rangeFields, readNumber_toDigits, hzero, shownFirst]
  | 1 => simp [rangeFields, readNumber_toDigits, shownFirst]
  | n + 2 => simp [rangeFields, readNumber_toDigits, shownFirst]

theorem readShownRanges_header (h : Hunk) :
    ∃ header, Text.dropLiteral? ['@', '@', ' ', '-'] h.header.toList = some header ∧
      readShownRanges header = some ((shownFirst h.startA (h.endA - h.startA), h.endA - h.startA),
        (shownFirst h.startB (h.endB - h.startB), h.endB - h.startB)) := by
  refine ⟨(Hunk.range (h.startA + 1) (h.endA - h.startA)).toList ++ ' ' ::
    ('+' :: ((Hunk.range (h.startB + 1) (h.endB - h.startB)).toList ++ ' ' :: ['@', '@'])), ?_, ?_⟩
  · simp [Hunk.header, Text.dropLiteral?]
  · have hfirst := blank_not_mem_range h.startA (h.endA - h.startA)
    have hsecond := blank_not_mem_range h.startB (h.endB - h.startB)
    rw [readShownRanges, Text.takeWhile_ne_append hfirst rfl, Text.dropWhile_ne_append hfirst rfl]
    simp only [Text.takeWhile_ne_append hsecond List.head?_cons,
      Text.dropWhile_ne_append hsecond List.head?_cons, readShownRange_range, if_true]
    rfl

theorem readShownLine_render (g : Glyphs) (line : HunkLine) :
    readShownLine (line.render g).toList = some (line.shown g) := by
  cases line with
  | context l => rw [context_toList]; rfl
  | removed l =>
    rw [removed_toList, readShownLine, String.ofList_toList]
    rfl
  | added l =>
    rw [added_toList, readShownLine, String.ofList_toList]
    rfl

/-- No line of a hunk begins like a header. -/
theorem dropLiteral?_render (g : Glyphs) (line : HunkLine) :
    Text.dropLiteral? ['@', '@', ' ', '-'] (line.render g).toList = none := by
  cases line with
  | context l => rw [context_toList]; rfl
  | removed l => rw [removed_toList]; rfl
  | added l => rw [added_toList]; rfl

/-- The lines of a hunk are read up to the next header. -/
theorem readPieces_lines {behind : List HunkLine} (h : readPieces pieces = some (behind, hunks))
    (lines : List HunkLine) :
    readPieces (lines.map (·.render g) ++ pieces) =
      some (lines.map (·.shown g) ++ behind, hunks) := by
  induction lines with
  | nil => exact h
  | cons line lines ih =>
    rw [List.map_cons, List.cons_append, readPieces, ih]
    simp only [Option.bind_eq_bind, Option.bind_some, dropLiteral?_render, readShownLine_render]
    rfl

theorem readPieces_renderLines (g : Glyphs) (hs : List Hunk) :
    readPieces (hs.flatMap (·.renderLines g)) = some ([], hs.map (·.shown g)) := by
  induction hs with
  | nil => rfl
  | cons h hs ih =>
    obtain ⟨header, hheader, hranges⟩ := readShownRanges_header h
    have hlines := readPieces_lines (g := g) ih h.lines
    rw [List.flatMap_cons, Hunk.renderLines, List.cons_append, readPieces, hlines, hheader]
    simp only [Option.bind_eq_bind, Option.bind_some, hranges]
    rw [List.append_nil]
    rfl

/-- What is rendered can be read back. -/
theorem readHunks_joinStrings (hpieces : ∀ piece ∈ hs.flatMap (·.renderLines g),
      '\n' ∉ piece.toList ∧ piece ≠ "") :
    readHunks (Text.joinStrings '\n' (hs.flatMap (·.renderLines g))) =
      some (hs.map (·.shown g)) := by
  rw [readHunks]
  by_cases hempty : hs.flatMap (·.renderLines g) = []
  · have hread := readPieces_renderLines g hs
    rw [hempty] at hread ⊢
    have hnone : [] = hs.map (·.shown g) := congrArg Prod.snd (Option.some.inj hread)
    rw [← hnone]
    exact if_pos rfl
  · rw [if_neg (mt (joinStrings_eq_empty_iff hpieces).1 hempty),
      Text.splitString_joinStrings hempty fun piece hpiece => (hpieces piece hpiece).1,
      readPieces_renderLines]

theorem countP_shown {p : HunkLine → Bool} (hp : ∀ line, p (line.shown g) = p line)
    (lines : List HunkLine) : (lines.map (·.shown g)).countP p = lines.countP p := by
  rw [List.countP_map]
  exact List.countP_congr fun line _ => by rw [Function.comp_apply, hp]

/-- The numbers of a header fit the lines below it. -/
theorem HunksOf.shown_lengths (h : HunksOf a b i es hs) (g : Glyphs) :
    ∀ shown ∈ hs.map (·.shown g), shown.lengthA = shown.lines.countP (·.inFirst) ∧
      shown.lengthB = shown.lines.countP (·.inSecond) := by
  induction h with
  | done i => simp
  | @hunk i first rest later h hs shows near far apart more ih =>
    rintro shown hshown
    rcases List.mem_cons.1 hshown with rfl | hshown
    · have hfirst := countP_shown (g := g) (p := HunkLine.inFirst) (by rintro (_ | _ | _) <;> rfl)
        h.lines
      have hsecond := countP_shown (g := g) (p := HunkLine.inSecond) (by rintro (_ | _ | _) <;> rfl)
        h.lines
      exact ⟨shows.lengthA.trans hfirst.symm, shows.lengthB.trans hsecond.symm⟩
    · exact ih shown hshown

/-- The rendering of a difference consists of hunks that show the edits between both texts. The
numbers of their headers fit their lines. -/
theorem renderDiff_wellFormed {glyphs : Glyphs} (hglyphs : glyphs = .fancy ∨ glyphs = .simple)
    (original expected : String) :
    ∃ hs : List Hunk,
      readHunks (renderDiff original expected glyphs) = some (hs.map (·.shown glyphs)) ∧
      (∀ shown ∈ hs.map (·.shown glyphs), shown.lengthA = shown.lines.countP (·.inFirst) ∧
        shown.lengthB = shown.lines.countP (·.inSecond)) ∧
      HunksOf (Text.linesOf original) (Text.linesOf expected) 0
        (FileDiff.compute original expected).edits hs := by
  have hline : glyphs.OneLine := by
    rcases hglyphs with rfl | rfl
    · exact oneLine_fancy
    · exact oneLine_simple
  have haligned := editsWithin_aligned maxEditDistance (Text.linesOf original)
    (Text.linesOf expected)
  obtain ⟨hs, hhunks, hhunked, hshape⟩ := hunks_hunksOf (d := FileDiff.compute original expected)
    haligned
  refine ⟨hs, ?_, hshape.shown_lengths glyphs, hshape⟩
  rw [renderDiff, render_of_hunks hhunks]
  exact readHunks_joinStrings (rendered_pieces hline hhunked)

/-- Eight unchanged lines lie between both edits, so that each has a hunk of its own and two lines are
left out between them. -/
theorem renderDiff_wellFormed_twoHunks :
    ∃ hs : List Hunk,
      readHunks (renderDiff "a\n1\n2\n3\n4\n5\n6\n7\n8\n" "1\n2\n3\n4\n5\n6\n7\n8\nb " .fancy) =
        some (hs.map (·.shown .fancy)) ∧
      hs.map (·.shown .fancy) =
        [⟨1, 4, 1, 3, [.removed "a␊", .context "1", .context "2", .context "3"]⟩,
          ⟨7, 3, 6, 4, [.context "6", .context "7", .context "8", .added "b·"]⟩] ∧
      HunksOf ["a\n", "1\n", "2\n", "3\n", "4\n", "5\n", "6\n", "7\n", "8\n"]
        ["1\n", "2\n", "3\n", "4\n", "5\n", "6\n", "7\n", "8\n", "b "] 0
        [⟨0, 1, 0, 0⟩, ⟨9, 9, 8, 9⟩] hs := by
  obtain ⟨hs, hread, -, hshape⟩ := renderDiff_wellFormed (Or.inl rfl)
    "a\n1\n2\n3\n4\n5\n6\n7\n8\n" "1\n2\n3\n4\n5\n6\n7\n8\nb "
  have hshown : readHunks (renderDiff "a\n1\n2\n3\n4\n5\n6\n7\n8\n"
      "1\n2\n3\n4\n5\n6\n7\n8\nb " .fancy) =
        some [⟨1, 4, 1, 3, [.removed "a␊", .context "1", .context "2", .context "3"]⟩,
          ⟨7, 3, 6, 4, [.context "6", .context "7", .context "8", .added "b·"]⟩] := by
    decide +kernel
  have hedits : (FileDiff.compute "a\n1\n2\n3\n4\n5\n6\n7\n8\n"
      "1\n2\n3\n4\n5\n6\n7\n8\nb ").edits = [⟨0, 1, 0, 0⟩, ⟨9, 9, 8, 9⟩] := by
    decide +kernel
  have hfirst : Text.linesOf "a\n1\n2\n3\n4\n5\n6\n7\n8\n" =
      ["a\n", "1\n", "2\n", "3\n", "4\n", "5\n", "6\n", "7\n", "8\n"] := by
    decide +kernel
  have hsecond : Text.linesOf "1\n2\n3\n4\n5\n6\n7\n8\nb " =
      ["1\n", "2\n", "3\n", "4\n", "5\n", "6\n", "7\n", "8\n", "b "] := by
    decide +kernel
  rw [hedits, hfirst, hsecond] at hshape
  exact ⟨hs, hread, Option.some.inj (hread.symm.trans hshown), hshape⟩

end StableFormat
