import Mathlib.Data.List.Basic
import StableFormat.Proofs.Diff.Hunks
import StableFormat.Proofs.Text.Glyphs
import StableFormat.Proofs.Text.Lines

/-!
# Proofs: a rendered difference is a patch

A reader of rendered hunks sees the first text and the rendering only. It finds its place in the
first text by the headers, copies context, skips what is removed and takes what is added, with the
glyphs turned back into white space. It ends up with the second text.
-/

namespace StableFormat

/-! ## Reading a patch -/

/-- A decimal number. -/
def readNumber (cs : List Char) : Option ℕ :=
  if cs ≠ [] ∧ cs.all Char.isDigit then some (Nat.ofDigitChars 10 cs 0) else none

/-- The position of a line that is counted from one. -/
def readPosition (cs : List Char) : Option ℕ := do
  let first ← readNumber cs
  if first = 0 then none else some (first - 1)

/-- Where the range of a header starts, counted from zero, and its length. -/
def readRange (cs : List Char) : Option (ℕ × ℕ) :=
  match Text.splitAtChar ',' cs with
  | [first] => do return (← readPosition first, 1)
  | [first, length] => do
    let length ← readNumber length
    let start ← if length = 0 then readNumber first else readPosition first
    return (start, length)
  | _ => none

/-- What a reader has put together, the line of the first text that it is at, and the one behind the
hunk that it is in. -/
structure PatchReader where
  text : String
  line : ℕ
  resume : ℕ

/-- Reads one line of a patch. -/
def PatchReader.step (glyphs : Glyphs) (lines : List String) (r : PatchReader) (line : String) :
    Option PatchReader :=
  match line.toList with
  | '@' :: '@' :: ' ' :: '-' :: header => do
    let (start, length) ← readRange (header.takeWhile (· ≠ ' '))
    if r.resume ≤ start ∧ start ≤ lines.length then
      some ⟨r.text ++ String.join ((lines.take start).drop r.resume), start, start + length⟩
    else none
  | ' ' :: _ => do
    let copied ← lines[r.line]?
    some { r with text := r.text ++ copied, line := r.line + 1 }
  | '-' :: _ => some { r with line := r.line + 1 }
  | '+' :: added =>
    some { r with text := r.text ++ glyphs.devisualize (String.ofList added) }
  | _ => none

/-- Applies a patch to a text. -/
def applyPatch (glyphs : Glyphs) (original patch : String) : Option String := do
  let lines := Text.linesOf original
  let pieces := (Text.splitString '\n' patch).filter (· ≠ "")
  let r ← pieces.foldlM (PatchReader.step glyphs lines) ⟨"", 0, 0⟩
  if r.resume ≤ lines.length then some (r.text ++ String.join (lines.drop r.resume)) else none

/-- The line that a line of a hunk adds. -/
def HunkLine.added? : HunkLine → Option String
  | added line => some line
  | _ => none

/-- The lines that the hunks of a difference add. -/
def FileDiff.addedLines (d : FileDiff) : List String :=
  match d.hunks with
  | .ok hunks => hunks.flatMap fun h => h.lines.filterMap HunkLine.added?
  | .error _ => []

/-! ## Headers -/

variable {first length n : ℕ} {c : Char}

theorem readNumber_toDigits (n : ℕ) : readNumber (Nat.toDigits 10 n) = some n := by
  have hdigits : (Nat.toDigits 10 n).all Char.isDigit = true :=
    List.all_eq_true.2 fun c hc => Nat.isDigit_of_mem_toDigits (by omega) (by omega) hc
  rw [readNumber, if_pos ⟨Nat.toDigits_ne_nil, hdigits⟩, Nat.ofDigitChars_ten_toDigits]

theorem readPosition_toDigits (n : ℕ) : readPosition (Nat.toDigits 10 (n + 1)) = some n := by
  rw [readPosition, readNumber_toDigits]
  rfl

/-- The numbers in the range of a header. -/
def rangeFields (first : ℕ) : ℕ → List (List Char)
  | 0 => [Nat.toDigits 10 first, Nat.toDigits 10 0]
  | 1 => [Nat.toDigits 10 (first + 1)]
  | length => [Nat.toDigits 10 (first + 1), Nat.toDigits 10 length]

theorem range_toList (first length : ℕ) :
    (Hunk.range (first + 1) length).toList = Text.joinWithChar ',' (rangeFields first length) := by
  match length with
  | 0 => simp [Hunk.range, rangeFields, Text.joinWithChar]
  | 1 => simp [Hunk.range, rangeFields, Text.joinWithChar]
  | n + 2 => simp [Hunk.range, rangeFields, Text.joinWithChar]

theorem isDigit_of_mem_rangeFields {field : List Char} (h : field ∈ rangeFields first length)
    (hc : c ∈ field) : c.isDigit := by
  suffices hfield : ∃ n, field = Nat.toDigits 10 n by
    obtain ⟨n, rfl⟩ := hfield
    exact Nat.isDigit_of_mem_toDigits (by omega) (by omega) hc
  match length with
  | 0 =>
    rcases List.mem_pair.1 h with rfl | rfl
    · exact ⟨_, rfl⟩
    · exact ⟨_, rfl⟩
  | 1 => exact ⟨_, List.mem_singleton.1 h⟩
  | n + 2 =>
    rcases List.mem_pair.1 h with rfl | rfl
    · exact ⟨_, rfl⟩
    · exact ⟨_, rfl⟩

theorem splitAtChar_range (first length : ℕ) :
    Text.splitAtChar ',' (Hunk.range (first + 1) length).toList = rangeFields first length := by
  have hne : rangeFields first length ≠ [] := by
    match length with
    | 0 | 1 | n + 2 => simp [rangeFields]
  have hcomma : ∀ field ∈ rangeFields first length, ',' ∉ field := by
    intro field hfield hmem
    exact absurd (isDigit_of_mem_rangeFields hfield hmem) (by decide)
  rw [range_toList, Text.splitAtChar_joinWithChar hne hcomma]

theorem readRange_range (first length : ℕ) :
    readRange (Hunk.range (first + 1) length).toList = some (first, length) := by
  rw [readRange, splitAtChar_range]
  match length with
  | 0 =>
    have hzero : readNumber ['0'] = some 0 := readNumber_toDigits 0
    simp [rangeFields, readNumber_toDigits, hzero]
  | 1 => simp [rangeFields, readPosition_toDigits]
  | n + 2 => simp [rangeFields, readNumber_toDigits, readPosition_toDigits]

theorem isDigit_or_comma_of_mem_range (h : c ∈ (Hunk.range (first + 1) length).toList) :
    c.isDigit ∨ c = ',' := by
  rw [range_toList] at h
  rcases Text.mem_joinWithChar h with rfl | ⟨field, hfield, hc⟩
  · exact Or.inr rfl
  · exact Or.inl (isDigit_of_mem_rangeFields hfield hc)

theorem blank_not_mem_range (first length : ℕ) :
    ' ' ∉ (Hunk.range (first + 1) length).toList := fun hmem =>
  absurd (isDigit_or_comma_of_mem_range hmem) (by decide)

/-- What the reader sees of a header. -/
theorem header_toList (h : Hunk) :
    ∃ rest, h.header.toList = '@' :: '@' :: ' ' :: '-' :: rest ∧
      rest.takeWhile (· ≠ ' ') = (Hunk.range (h.startA + 1) (h.endA - h.startA)).toList ∧
      '\n' ∉ rest := by
  refine ⟨(Hunk.range (h.startA + 1) (h.endA - h.startA)).toList ++ ' ' ::
    ('+' :: (Hunk.range (h.startB + 1) (h.endB - h.startB)).toList ++ [' ', '@', '@']), ?_,
    Text.takeWhile_ne_append (blank_not_mem_range _ _) rfl, ?_⟩
  · simp [Hunk.header]
  · intro hmem
    have hrange : ∀ first length, '\n' ∉ (Hunk.range (first + 1) length).toList :=
      fun first length hc => absurd (isDigit_or_comma_of_mem_range hc) (by decide)
    simp [hrange] at hmem

/-! ## Rendered lines -/

variable {g : Glyphs} {a b : List String} {l : String} {lines : List HunkLine} {hs : List Hunk}
  {i j i' j' : ℕ}

/-- No glyph breaks a line. -/
def Glyphs.OneLine (g : Glyphs) : Prop :=
  ∀ c, '\n' ∉ g.ofChar c

theorem oneLine_fancy : Glyphs.fancy.OneLine :=
  Glyphs.not_mem_ofChar (by decide) (by decide)

theorem oneLine_simple : Glyphs.simple.OneLine :=
  Glyphs.not_mem_ofChar (by decide) (by decide)

theorem Glyphs.OneLine.visualize (hg : g.OneLine) (l : String) :
    '\n' ∉ (g.visualize l).toList :=
  not_mem_visualize hg l

theorem context_toList (g : Glyphs) (l : String) :
    ((HunkLine.context l).render g).toList =
      ' ' :: Text.dropTrailing (fun c => c = '\n' || c = '\r') l.toList :=
  String.toList_ofList

theorem removed_toList (g : Glyphs) (l : String) :
    ((HunkLine.removed l).render g).toList = '-' :: (g.visualize l).toList := by
  simp [HunkLine.render]

theorem added_toList (g : Glyphs) (l : String) :
    ((HunkLine.added l).render g).toList = '+' :: (g.visualize l).toList := by
  simp [HunkLine.render]

/-! ## One step of the reader -/

theorem join_take_succ (h : b[j]? = some l) :
    String.join (b.take (j + 1)) = String.join (b.take j) ++ l := by
  rw [List.take_add_one, h, String.join_append]
  simp

theorem step_context (h : a[i]? = some l) (text : String) (resume : ℕ) :
    PatchReader.step g a ⟨text, i, resume⟩ ((HunkLine.context l).render g) =
      some ⟨text ++ l, i + 1, resume⟩ := by
  rw [PatchReader.step, context_toList]
  simp [h]

theorem step_removed (text : String) (i resume : ℕ) :
    PatchReader.step g a ⟨text, i, resume⟩ ((HunkLine.removed l).render g) =
      some ⟨text, i + 1, resume⟩ := by
  rw [PatchReader.step, removed_toList]
  simp

theorem step_added (h : g.devisualize (g.visualize l) = l) (text : String) (i resume : ℕ) :
    PatchReader.step g a ⟨text, i, resume⟩ ((HunkLine.added l).render g) =
      some ⟨text ++ l, i, resume⟩ := by
  rw [PatchReader.step, added_toList]
  simp only [String.ofList_toList, h]

theorem step_header (h : Hunk) (text : String) {line resume : ℕ} (hresume : resume ≤ h.startA)
    (hstart : h.startA ≤ a.length) :
    PatchReader.step g a ⟨text, line, resume⟩ h.header =
      some ⟨text ++ String.join ((a.take h.startA).drop resume), h.startA,
        h.startA + (h.endA - h.startA)⟩ := by
  obtain ⟨rest, hlist, hrange, -⟩ := header_toList h
  rw [PatchReader.step, hlist]
  simp only [hrange, readRange_range, Option.bind_eq_bind, Option.bind_some]
  exact if_pos ⟨hresume, hstart⟩

/-! ## Reading hunks -/

theorem Reads.le (h : Reads a b lines i j i' j') : i ≤ i' := by
  induction h with
  | done _ _ => exact le_rfl
  | context _ _ _ ih => omega
  | removed _ _ ih => omega
  | added _ _ ih => exact ih

theorem Reads.le_length (h : Reads a b lines i j i' j') (hi : i ≤ a.length) : i' ≤ a.length := by
  induction h with
  | done _ _ => exact hi
  | context ha _ _ ih => exact ih (List.getElem?_eq_some_iff.1 ha).1
  | removed ha _ ih => exact ih (List.getElem?_eq_some_iff.1 ha).1
  | added _ _ ih => exact ih hi

/-- The lines of a hunk take the reader from its start to its end. -/
theorem Reads.run (h : Reads a b lines i j i' j')
    (hglyphs : ∀ l, .added l ∈ lines → g.devisualize (g.visualize l) = l) (resume : ℕ) :
    (lines.map (·.render g)).foldlM (PatchReader.step g a) ⟨String.join (b.take j), i, resume⟩ =
      some ⟨String.join (b.take j'), i', resume⟩ := by
  induction h with
  | done _ _ => rfl
  | context ha hb _ ih =>
    have hrest := ih fun l hl => hglyphs l (List.mem_cons_of_mem _ hl)
    rw [List.map_cons, List.foldlM_cons, step_context ha, ← join_take_succ hb]
    exact hrest
  | removed ha _ ih =>
    have hrest := ih fun l hl => hglyphs l (List.mem_cons_of_mem _ hl)
    rw [List.map_cons, List.foldlM_cons, step_removed]
    exact hrest
  | added hb _ ih =>
    have hrest := ih fun l hl => hglyphs l (List.mem_cons_of_mem _ hl)
    rw [List.map_cons, List.foldlM_cons, step_added (hglyphs _ (List.mem_cons_self ..)),
      ← join_take_succ hb]
    exact hrest

/-- What a patch leaves out is copied. -/
theorem InStep.join (h : InStep a b i j i' j') :
    String.join (b.take j) ++ String.join ((a.take i').drop i) = String.join (b.take j') := by
  have hcopied := h.take_drop_eq
  have hsplit := List.take_append_drop j (b.take j')
  rw [List.take_take, Nat.min_eq_left h.bounds.2.1] at hsplit
  rw [hcopied, ← String.join_append, hsplit]

/-- The hunks take the reader to a place from which on both texts are the same. -/
theorem Hunked.run (h : Hunked a b hs i j) (hi : i ≤ a.length)
    (hglyphs : ∀ h ∈ hs, ∀ l, .added l ∈ h.lines → g.devisualize (g.visualize l) = l) (line : ℕ) :
    ∃ i' j' line', (hs.flatMap (·.renderLines g)).foldlM (PatchReader.step g a)
        ⟨String.join (b.take j), line, i⟩ = some ⟨String.join (b.take j'), line', i'⟩ ∧
      i' ≤ a.length ∧ InStep a b i' j' a.length b.length := by
  induction h generalizing line with
  | done same => exact ⟨_, _, line, rfl, hi, same⟩
  | @hunk h hs i j same reads more ih =>
    have hstart := same.le_length hi
    have hend := reads.le_length hstart
    obtain ⟨i', j', line', hrun, hi', hsame⟩ := ih hend
      (fun h' hh' => hglyphs h' (List.mem_cons_of_mem _ hh')) h.endA
    refine ⟨i', j', line', ?_, hi', hsame⟩
    rw [List.flatMap_cons, List.foldlM_append, Hunk.renderLines, List.foldlM_cons,
      step_header h _ same.bounds.1 hstart, same.join, Nat.add_sub_of_le reads.le]
    simp only [Option.bind_eq_bind, Option.bind_some,
      reads.run (hglyphs h (List.mem_cons_self ..)), hrun]

/-! ## The pieces of a rendered difference -/

theorem Reads.mem_of_context (h : Reads a b lines i j i' j') (hl : .context l ∈ lines) : l ∈ a := by
  induction h with
  | done _ _ => simp at hl
  | context ha _ _ ih =>
    rcases List.mem_cons.1 hl with heq | hl
    · cases heq
      exact List.mem_of_getElem? ha
    · exact ih hl
  | removed _ _ ih =>
    rcases List.mem_cons.1 hl with heq | hl
    · cases heq
    · exact ih hl
  | added _ _ ih =>
    rcases List.mem_cons.1 hl with heq | hl
    · cases heq
    · exact ih hl

theorem Hunked.mem_of_context (h : Hunked a b hs i j) :
    ∀ h ∈ hs, ∀ l, .context l ∈ h.lines → l ∈ a := by
  induction h with
  | done _ => simp
  | hunk _ reads _ ih =>
    rintro h' (_ | ⟨_, hmem⟩) l hl
    · exact reads.mem_of_context hl
    · exact ih h' hmem l hl

theorem render_piece (hg : g.OneLine) {line : HunkLine}
    (hcontext : ∀ l, line = .context l → '\n' ∉ l.toList.dropLast) :
    '\n' ∉ (line.render g).toList ∧ line.render g ≠ "" := by
  suffices hlist : ∃ c cs, (line.render g).toList = c :: cs ∧ c ≠ '\n' ∧ '\n' ∉ cs by
    obtain ⟨c, cs, hrender, hc, hcs⟩ := hlist
    refine ⟨?_, fun hempty => ?_⟩
    · rw [hrender, List.mem_cons]
      rintro (heq | hmem)
      · exact hc heq.symm
      · exact hcs hmem
    · rw [hempty] at hrender
      simp at hrender
  cases line with
  | context l =>
    have hl := Text.newline_not_mem_dropTrailing (p := fun c => c = '\n' || c = '\r') (by decide)
      (hcontext l rfl)
    exact ⟨_, _, context_toList g l, by decide, hl⟩
  | removed l => exact ⟨_, _, removed_toList g l, by decide, hg.visualize l⟩
  | added l => exact ⟨_, _, added_toList g l, by decide, hg.visualize l⟩

theorem header_piece (h : Hunk) : '\n' ∉ h.header.toList ∧ h.header ≠ "" := by
  obtain ⟨rest, hlist, -, hrest⟩ := header_toList h
  refine ⟨?_, fun hempty => ?_⟩
  · rw [hlist]
    simpa using hrest
  · rw [hempty] at hlist
    simp at hlist

/-- Every piece of a rendered difference is one line and not empty. -/
theorem renderLines_piece (hg : g.OneLine)
    (hcontext : ∀ h ∈ hs, ∀ l, .context l ∈ h.lines → '\n' ∉ l.toList.dropLast) :
    ∀ piece ∈ hs.flatMap (·.renderLines g), '\n' ∉ piece.toList ∧ piece ≠ "" := by
  intro piece hpiece
  obtain ⟨h, hh, hpiece⟩ := List.mem_flatMap.1 hpiece
  rcases List.mem_cons.1 hpiece with rfl | hpiece
  · exact header_piece h
  · obtain ⟨line, hline, rfl⟩ := List.mem_map.1 hpiece
    refine render_piece hg fun l hl => hcontext h hh l ?_
    rw [← hl]
    exact hline

theorem splitString_pieces {pieces : List String}
    (h : ∀ piece ∈ pieces, '\n' ∉ piece.toList ∧ piece ≠ "") :
    (Text.splitString '\n' (Text.joinStrings '\n' pieces)).filter (· ≠ "") = pieces := by
  by_cases hne : pieces = []
  · subst hne
    decide
  · rw [Text.splitString_joinStrings hne fun piece hpiece => (h piece hpiece).1]
    exact List.filter_eq_self.2 fun piece hpiece => decide_eq_true (h piece hpiece).2

/-! ## Texts -/

theorem compute_hunks (original expected : String) :
    ∃ hs, (FileDiff.compute original expected).hunks = .ok hs ∧
      Hunked (Text.linesOf original) (Text.linesOf expected) hs 0 0 :=
  hunks_spec (d := FileDiff.compute original expected) (aligned_compute original expected)

theorem render_of_hunks {d : FileDiff} (h : d.hunks = .ok hs) (g : Glyphs) :
    d.render g = Text.joinStrings '\n' (hs.flatMap (·.renderLines g)) := by
  rw [FileDiff.render, h]

theorem mem_addedLines {d : FileDiff} {h : Hunk} (hhunks : d.hunks = .ok hs) (hh : h ∈ hs)
    (hl : .added l ∈ h.lines) : l ∈ d.addedLines := by
  rw [FileDiff.addedLines, hhunks]
  exact List.mem_flatMap.2 ⟨h, hh, List.mem_filterMap.2 ⟨_, hl, rfl⟩⟩

theorem rendered_pieces {original : String} (hg : g.OneLine)
    (hhunked : Hunked (Text.linesOf original) b hs i j) :
    ∀ piece ∈ hs.flatMap (·.renderLines g), '\n' ∉ piece.toList ∧ piece ≠ "" :=
  renderLines_piece hg fun h hh _ hl =>
    Text.newline_not_mem_of_linesOf (hhunked.mem_of_context h hh _ hl)

theorem applyPatch_of_hunked {original expected : String} (hg : g.OneLine)
    (hhunked : Hunked (Text.linesOf original) (Text.linesOf expected) hs 0 0)
    (hglyphs : ∀ h ∈ hs, ∀ l, .added l ∈ h.lines → g.devisualize (g.visualize l) = l) :
    applyPatch g original (Text.joinStrings '\n' (hs.flatMap (·.renderLines g))) =
      some expected := by
  obtain ⟨i, j, line, hrun, hi, hsame⟩ := hhunked.run (Nat.zero_le _) hglyphs 0
  have hend := hsame.join
  rw [List.take_length, List.take_length, Text.join_linesOf] at hend
  have hpieces := splitString_pieces (rendered_pieces hg hhunked)
  have hstart : String.join ((Text.linesOf expected).take 0) = "" := rfl
  rw [hstart] at hrun
  rw [applyPatch, hpieces]
  simp only [hrun, Option.bind_eq_bind, Option.bind_some]
  rw [if_pos hi, hend]

/-- A difference without hunks renders to nothing, and only such a one does. -/
theorem joinStrings_eq_empty_iff {pieces : List String}
    (h : ∀ piece ∈ pieces, '\n' ∉ piece.toList ∧ piece ≠ "") :
    Text.joinStrings '\n' pieces = "" ↔ pieces = [] := by
  constructor
  · intro hempty
    have hpieces := splitString_pieces h
    rw [hempty] at hpieces
    rw [← hpieces]
    decide
  · rintro rfl
    rfl

theorem renderDiff_eq_empty_iff (hg : g.OneLine) (original expected : String) :
    renderDiff original expected g = "" ↔ original = expected := by
  obtain ⟨hs, hhunks, hhunked⟩ := compute_hunks original expected
  rw [renderDiff, render_of_hunks hhunks, joinStrings_eq_empty_iff (rendered_pieces hg hhunked)]
  constructor
  · intro hnil
    cases hhunked with
    | done same => exact Text.linesOf_injective same.eq
    -- A hunk would show its header at least.
    | hunk _ _ _ => simp [Hunk.renderLines] at hnil
  · rintro rfl
    have hedits : (FileDiff.compute original original).edits = [] :=
      (editsWithin_eq_nil_iff maxEditDistance _ _).2 rfl
    rw [FileDiff.hunks, hedits] at hhunks
    cases hhunks
    rfl

/-- Read as a patch of the first text, a rendered difference gives the second text, provided that
the glyphs of its added lines can be turned back. It is empty only for equal texts. -/
theorem applyPatch_renderDiff {glyphs : Glyphs} (hglyphs : glyphs = .fancy ∨ glyphs = .simple)
    (original expected : String) :
    ((∀ l ∈ (FileDiff.compute original expected).addedLines,
        glyphs.devisualize (glyphs.visualize l) = l) →
      applyPatch glyphs original (renderDiff original expected glyphs) = some expected) ∧
      (renderDiff original expected glyphs = "" ↔ original = expected) := by
  have hline : glyphs.OneLine := by
    rcases hglyphs with rfl | rfl
    · exact oneLine_fancy
    · exact oneLine_simple
  refine ⟨fun hback => ?_, renderDiff_eq_empty_iff hline original expected⟩
  obtain ⟨hs, hhunks, hhunked⟩ := compute_hunks original expected
  rw [renderDiff, render_of_hunks hhunks]
  exact applyPatch_of_hunked hline hhunked fun h hh l hl =>
    hback l (mem_addedLines hhunks hh hl)

theorem applyPatch_renderDiff_blank :
    applyPatch .fancy "a\nb\n" (renderDiff "a\nb\n" "a\nc \n" .fancy) = some "a\nc \n" ∧
      renderDiff "a\nb\n" "a\nc \n" .fancy ≠ "" := by
  have hadded : (FileDiff.compute "a\nb\n" "a\nc \n").addedLines = ["c \n"] := by
    decide +kernel
  have hpatch := applyPatch_renderDiff (Or.inl rfl) "a\nb\n" "a\nc \n"
  refine ⟨hpatch.1 ?_, fun hempty => absurd (hpatch.2.1 hempty) (by decide)⟩
  rw [hadded]
  decide +kernel

end StableFormat
