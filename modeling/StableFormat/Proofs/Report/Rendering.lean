import Mathlib.Data.List.Nodup
import StableFormat.Proofs.Checked
import StableFormat.Proofs.Report.Tiers
import StableFormat.Proofs.Text.Lines
import StableFormat.Proofs.Text.Numbers

/-!
# Proofs: the text of a report

A report is printed line by line. First come the lines that use up room, the paths and what is shown
of the bodies; as only the last section can be cut, the line that tells how much of it is missing
stands behind all of these. Then the other files are either named or counted. All numbers that are
printed are those of lines and files that are not there.
-/

namespace StableFormat

namespace Layout

/-- The line that tells how many lines of a body are missing. -/
def moreLine (n : ℕ) : String :=
  "  ... (" ++ toString n ++ " more lines that didn't fit)"

/-- The line that tells how many files are not even named. -/
def countLine (n : ℕ) : String :=
  "Violations also present in " ++ toString n ++ " other files."

/-- The line that names the options for the limits. -/
def hintLine (limits : ReportLimits) : String :=
  "You might want to adjust --max-message-lines=" ++ toString limits.maxMessageLines ++
    " --max-files-to-list=" ++ toString limits.maxFilesToList ++ " to see more violations"

/-- The lines of a section that use up room. -/
def shownLines (s : Section) : List String :=
  ("  " ++ s.path) :: s.body.map ("    " ++ ·)

/-- What follows the sections. -/
def closingLines (limits : ReportLimits) (l : Layout) : List String :=
  (if l.named.isEmpty then []
    else "Violations also present in:" :: l.named.map ("  " ++ ·)) ++
  (if l.counted > 0 then [countLine l.counted] else []) ++
  (if l.isTruncated then [hintLine limits] else []) ++
  ["Run 'padcell apply' to fix these violations."]

variable {limits : ReportLimits} {l : Layout} {sections : List Section} {remaining : List String}
  {line : String} {n : ℕ}

theorem lines_eq (limits : ReportLimits) (l : Layout) :
    l.lines limits = "The following files have format violations:" ::
      (l.sections.flatMap sectionLines ++ l.closingLines limits) := by
  unfold lines closingLines countLine hintLine
  simp only [List.append_assoc, List.singleton_append]
  rfl

theorem sectionLines_eq (s : Section) :
    sectionLines s = shownLines s ++ (if s.withheld > 0 then [moreLine s.withheld] else []) := rfl

theorem length_shownLines (sections : List Section) :
    (sections.flatMap shownLines).length = Section.cost sections := by
  induction sections with
  | nil => rfl
  | cons s rest ih =>
    rw [List.flatMap_cons, List.length_append, ih, Section.cost, shownLines, List.length_cons,
      List.length_map]
    omega

/-! ## The marker -/

/-- If only the last section can be cut, there is at most one marker, and it stands behind all
sections. -/
theorem exists_cut (h : ∀ before s after, sections = before ++ s :: after → s.withheld ≠ 0 →
      after = []) :
    ∃ cut : Option ℕ,
      sections.flatMap sectionLines =
        sections.flatMap shownLines ++ cut.toList.map moreLine ∧
      (∀ n, cut = some n ↔ 0 < n ∧ ∃ s, sections.getLast? = some s ∧ s.withheld = n) ∧
      ∀ s ∈ sections.dropLast, s.withheld = 0 := by
  rcases List.eq_nil_or_concat sections with rfl | ⟨init, last, rfl⟩
  · exact ⟨none, rfl, by simp, by simp⟩
  · rw [List.concat_eq_append] at h ⊢
    have hwhole : ∀ s ∈ init, s.withheld = 0 := by
      intro s hs
      obtain ⟨before, after, rfl⟩ := List.append_of_mem hs
      by_contra hcut
      have hnone := h before s (after ++ [last]) (by simp) hcut
      simp at hnone
    have hinit : init.flatMap sectionLines = init.flatMap shownLines := by
      refine List.flatMap_congr fun s hs => ?_
      rw [sectionLines_eq, hwhole s hs, if_neg (lt_irrefl 0), List.append_nil]
    refine ⟨if last.withheld > 0 then some last.withheld else none, ?_, ?_, ?_⟩
    · rw [List.flatMap_append, List.flatMap_append, hinit, List.flatMap_singleton,
        List.flatMap_singleton, sectionLines_eq, List.append_assoc]
      split <;> rfl
    · intro n
      rw [List.getLast?_concat]
      split
      · next hcut =>
        constructor
        · rintro ⟨⟩
          exact ⟨hcut, last, rfl, rfl⟩
        · rintro ⟨-, s, ⟨⟩, rfl⟩
          rfl
      · next hcut =>
        constructor
        · rintro ⟨⟩
        · rintro ⟨hpos, s, ⟨⟩, rfl⟩
          exact absurd hpos hcut
    · rw [List.dropLast_concat]
      exact hwhole

/-! ## Lines that are told apart -/

theorem head?_of_mem_sectionLines {s : Section} (h : line ∈ sectionLines s) :
    line.toList.head? = some ' ' := by
  unfold sectionLines at h
  rw [List.cons_append, List.mem_cons, List.mem_append, List.mem_map] at h
  rcases h with rfl | ⟨shown, -, rfl⟩ | hmore
  · simp
  · simp
  · split at hmore
    · rw [List.mem_singleton.1 hmore]
      simp
    · cases hmore

theorem head?_append {s : String} {c : Char} (h : s.toList.head? = some c) (t : String) :
    (s ++ t).toList.head? = some c := by
  rw [String.toList_append, List.head?_append, h]
  rfl

theorem head?_countLine (n : ℕ) : (countLine n).toList.head? = some 'V' :=
  head?_append (head?_append (by decide) _) _

theorem head?_hintLine (limits : ReportLimits) : (hintLine limits).toList.head? = some 'Y' :=
  head?_append (head?_append (head?_append (head?_append (by decide) _) _) _) _

theorem countLine_injective {m n : ℕ} (h : countLine m = countLine n) : m = n := by
  unfold countLine at h
  rw [String.append_left_inj, String.append_right_inj] at h
  exact Text.number_injective h

/-- The lines that are not indented are those of the report as a whole. -/
theorem mem_lines_iff (hline : line.toList.head? ≠ some ' ') :
    line ∈ l.lines limits ↔
      line = "The following files have format violations:" ∨
      (l.named ≠ [] ∧ line = "Violations also present in:") ∨
      (0 < l.counted ∧ line = countLine l.counted) ∨
      (l.isTruncated = true ∧ line = hintLine limits) ∨
      line = "Run 'padcell apply' to fix these violations." := by
  have hsections : line ∉ l.sections.flatMap sectionLines := by
    intro hmem
    obtain ⟨s, -, hs⟩ := List.mem_flatMap.1 hmem
    exact hline (head?_of_mem_sectionLines hs)
  have hnames : line ∉ l.named.map ("  " ++ ·) := by
    intro hmem
    obtain ⟨name, -, rfl⟩ := List.mem_map.1 hmem
    simp at hline
  have hnamed : line ∈ (if l.named.isEmpty then []
      else "Violations also present in:" :: l.named.map ("  " ++ ·)) ↔
      l.named ≠ [] ∧ line = "Violations also present in:" := by
    cases hl : l.named with
    | nil => simp
    | cons name rest =>
      rw [hl] at hnames
      rw [List.isEmpty_cons, if_neg Bool.false_ne_true, List.mem_cons, or_iff_left hnames]
      simp
  have hcounted : line ∈ (if l.counted > 0 then [countLine l.counted] else []) ↔
      0 < l.counted ∧ line = countLine l.counted := by
    split
    · next hpos => simp [hpos]
    · next hpos => simp [hpos]
  have hhint : line ∈ (if l.isTruncated then [hintLine limits] else []) ↔
      l.isTruncated = true ∧ line = hintLine limits := by
    split
    · next htruncated => simp [htruncated]
    · next htruncated => simp [htruncated]
  rw [lines_eq, List.mem_cons, List.mem_append, or_iff_right hsections]
  unfold closingLines
  rw [List.mem_append, List.mem_append, List.mem_append, hnamed, hcounted, hhint,
    List.mem_singleton, or_assoc, or_assoc]

/-- Behind the sections, only names are indented. -/
theorem exists_name_of_mem_closingLines (hline : line.toList.head? = some ' ')
    (h : line ∈ l.closingLines limits) : ∃ name ∈ l.named, line = "  " ++ name := by
  unfold closingLines at h
  rw [List.mem_append, List.mem_append, List.mem_append] at h
  rcases h with ((hnames | hcount) | hhint) | hlast
  · split at hnames
    · cases hnames
    · rcases List.mem_cons.1 hnames with rfl | hname
      · cases hline
      · obtain ⟨name, hmem, rfl⟩ := List.mem_map.1 hname
        exact ⟨name, hmem, rfl⟩
  · split at hcount
    · rw [List.mem_singleton.1 hcount, head?_countLine] at hline
      cases hline
    · cases hcount
  · split at hhint
    · rw [List.mem_singleton.1 hhint, head?_hintLine] at hline
      cases hline
    · cases hhint
  · rw [List.mem_singleton.1 hlast] at hline
    cases hline

theorem countLine_mem_lines : countLine n ∈ l.lines limits ↔ 0 < n ∧ l.counted = n := by
  have hhead := head?_countLine n
  rw [mem_lines_iff (by rw [hhead]; decide)]
  constructor
  · rintro (heq | ⟨-, heq⟩ | ⟨hpos, heq⟩ | ⟨-, heq⟩ | heq)
    · rw [heq] at hhead
      cases hhead
    · -- The line in front of names ends with a colon.
      have hcolon : ':' ∈ (countLine n).toList := by
        rw [heq]
        decide
      unfold countLine at hcolon
      rw [String.toList_append, String.toList_append, List.mem_append, List.mem_append] at hcolon
      rcases hcolon with (hfront | hnumber) | hbehind
      · exact absurd hfront (by decide)
      · exact absurd hnumber (Text.not_mem_number rfl n)
      · exact absurd hbehind (by decide)
    · obtain rfl := countLine_injective heq
      exact ⟨hpos, rfl⟩
    · rw [heq, head?_hintLine] at hhead
      cases hhead
    · rw [heq] at hhead
      cases hhead
  · rintro ⟨hpos, rfl⟩
    exact Or.inr (Or.inr (Or.inl ⟨hpos, rfl⟩))

theorem hintLine_mem_lines : hintLine limits ∈ l.lines limits ↔ l.isTruncated = true := by
  have hhead := head?_hintLine limits
  rw [mem_lines_iff (by rw [hhead]; decide)]
  constructor
  · rintro (heq | ⟨-, heq⟩ | ⟨-, heq⟩ | ⟨htruncated, -⟩ | heq)
    · rw [heq] at hhead
      cases hhead
    · rw [heq] at hhead
      cases hhead
    · rw [heq, head?_countLine] at hhead
      cases hhead
    · exact htruncated
    · rw [heq] at hhead
      cases hhead
  · intro htruncated
    exact Or.inr (Or.inr (Or.inr (Or.inl ⟨htruncated, rfl⟩)))

/-! ## The number of lines -/

theorem ofTiers_cases (limits : ReportLimits) (sections : List Section) (remaining : List String) :
    (remaining.length < limits.maxFilesToList ∧
        ofTiers limits sections remaining = ⟨sections, remaining, 0⟩) ∨
      (limits.maxFilesToList ≤ remaining.length ∧
        ofTiers limits sections remaining = ⟨sections, [], remaining.length⟩) := by
  unfold ofTiers
  split
  · next hmany => exact Or.inr ⟨hmany, rfl⟩
  · next hfew => exact Or.inl ⟨Nat.not_le.1 hfew, rfl⟩

/-- Something is missing if some file has no section, or some section is cut. -/
theorem isTruncated_ofTiers : (ofTiers limits sections remaining).isTruncated = true ↔
    remaining ≠ [] ∨ ∃ s ∈ sections, 0 < s.withheld := by
  have hcut : sections.any (·.withheld > 0) = true ↔ ∃ s ∈ sections, 0 < s.withheld := by
    simp
  unfold isTruncated
  rcases ofTiers_cases limits sections remaining with ⟨-, hl⟩ | ⟨-, hl⟩
  · rw [hl, Bool.or_eq_true, Bool.or_eq_true, hcut]
    simp
  · rw [hl, Bool.or_eq_true, Bool.or_eq_true, hcut]
    simp [List.length_pos_iff]

/-- Files are counted if there are at least as many as may be listed, and then all of them. -/
theorem countLine_mem_lines_ofTiers :
    countLine n ∈ (ofTiers limits sections remaining).lines limits ↔
      0 < n ∧ limits.maxFilesToList ≤ n ∧ n = remaining.length := by
  rw [countLine_mem_lines]
  refine and_congr_right fun hpos => ?_
  rcases ofTiers_cases limits sections remaining with ⟨hfew, hl⟩ | ⟨hmany, hl⟩
  · rw [hl]
    simp only
    omega
  · rw [hl]
    simp only
    omega

/-- Behind the sections, only a name can look like a marker. -/
theorem exists_name_of_moreLine_mem
    (h : moreLine n ∈ (ofTiers limits sections remaining).closingLines limits) :
    ∃ name ∈ remaining, moreLine n = "  " ++ name := by
  have hindented : (moreLine n).toList.head? = some ' ' :=
    head?_append (head?_append (by decide) _) _
  obtain ⟨name, hname, heq⟩ := exists_name_of_mem_closingLines hindented h
  refine ⟨name, ?_, heq⟩
  rcases ofTiers_cases limits sections remaining with ⟨-, hl⟩ | ⟨-, hl⟩
  · rw [hl] at hname
    exact hname
  · rw [hl] at hname
    cases hname

/-- Behind the sections there is a line for each name, or one for the number of the other files, and
at most three lines more. -/
theorem length_closingLines (limits : ReportLimits) (l : Layout) :
    (l.closingLines limits).length ≤
      (if l.named = [] then 0 else l.named.length + 1) + (if l.counted = 0 then 0 else 1) + 2 := by
  have hnames : (if l.named.isEmpty then []
      else "Violations also present in:" :: l.named.map ("  " ++ ·)).length =
      if l.named = [] then 0 else l.named.length + 1 := by
    cases l.named with
    | nil => rfl
    | cons name rest => simp
  have hcount : (if l.counted > 0 then [countLine l.counted] else []).length =
      if l.counted = 0 then 0 else 1 := by
    cases l.counted with
    | zero => rfl
    | succ n => simp
  have hhint : (if l.isTruncated then [hintLine limits] else []).length ≤ 1 := by
    split <;> simp
  unfold closingLines
  rw [List.length_append, List.length_append, List.length_append, hnames, hcount,
    List.length_singleton]
  omega

/-- There are never both names and a number, and with no room for files there is no section, either. -/
theorem length_lines_le (limits : ReportLimits) (sections : List Section) (remaining : List String)
    (hused : Section.cost sections ≤ limits.maxMessageLines)
    (hshown : sections.length ≤ limits.maxFilesToList)
    (hcut : ∀ before s after, sections = before ++ s :: after → s.withheld ≠ 0 → after = []) :
    ((ofTiers limits sections remaining).lines limits).length ≤
      limits.maxMessageLines + limits.maxFilesToList + 4 := by
  obtain ⟨cut, hlines, -, -⟩ := exists_cut hcut
  have hsections : (sections.flatMap sectionLines).length =
      Section.cost sections + cut.toList.length := by
    rw [hlines, List.length_append, length_shownLines, List.length_map]
  have hmarker : cut.toList.length ≤ 1 := by
    cases cut <;> simp
  have hclosing := length_closingLines limits (ofTiers limits sections remaining)
  rw [lines_eq, List.length_cons, List.length_append]
  rcases ofTiers_cases limits sections remaining with ⟨hfew, hl⟩ | ⟨hmany, hl⟩
  · rw [hl] at hclosing ⊢
    simp only [if_true] at hclosing
    split at hclosing <;> simp only [hsections] <;> omega
  · rw [hl] at hclosing ⊢
    simp only [if_true] at hclosing
    rcases Nat.eq_zero_or_pos limits.maxFilesToList with hnone | hpos
    · obtain rfl := List.eq_nil_of_length_eq_zero (Nat.le_zero.1 (hnone ▸ hshown))
      split at hclosing <;> simp only [List.flatMap_nil, List.length_nil] <;> omega
    · split at hclosing <;> simp only [hsections] <;> omega

/-! ## The lines of the text -/

theorem newline_not_mem_append {s t : String} (hs : '\n' ∉ s.toList) (ht : '\n' ∉ t.toList) :
    '\n' ∉ (s ++ t).toList := by
  rw [String.toList_append, List.mem_append, not_or]
  exact ⟨hs, ht⟩

theorem newline_not_mem_around {front behind : String} (n : ℕ) (hfront : '\n' ∉ front.toList)
    (hbehind : '\n' ∉ behind.toList) : '\n' ∉ (front ++ toString n ++ behind).toList :=
  newline_not_mem_append (newline_not_mem_append hfront (Text.not_mem_number rfl n)) hbehind

theorem newline_not_mem_sectionLines {s : Section} (hpath : '\n' ∉ s.path.toList)
    (hbody : ∀ shown ∈ s.body, '\n' ∉ shown.toList) :
    ∀ line ∈ sectionLines s, '\n' ∉ line.toList := by
  intro line hline
  unfold sectionLines at hline
  rw [List.cons_append, List.mem_cons, List.mem_append, List.mem_map] at hline
  rcases hline with rfl | ⟨shown, hshown, rfl⟩ | hmore
  · exact newline_not_mem_append (by decide) hpath
  · exact newline_not_mem_append (by decide) (hbody shown hshown)
  · split at hmore
    · rw [List.mem_singleton.1 hmore]
      exact newline_not_mem_around _ (by decide) (by decide)
    · cases hmore

theorem newline_not_mem_closingLines (hnamed : ∀ name ∈ l.named, '\n' ∉ name.toList) :
    ∀ line ∈ l.closingLines limits, '\n' ∉ line.toList := by
  intro line hline
  unfold closingLines at hline
  rw [List.mem_append, List.mem_append, List.mem_append] at hline
  rcases hline with ((hnames | hcount) | hhint) | hlast
  · split at hnames
    · cases hnames
    · rcases List.mem_cons.1 hnames with rfl | hname
      · decide
      · obtain ⟨name, hmem, rfl⟩ := List.mem_map.1 hname
        exact newline_not_mem_append (by decide) (hnamed name hmem)
  · split at hcount
    · rw [List.mem_singleton.1 hcount]
      exact newline_not_mem_around _ (by decide) (by decide)
    · cases hcount
  · split at hhint
    · rw [List.mem_singleton.1 hhint]
      exact newline_not_mem_around _ (newline_not_mem_around _ (by decide) (by decide)) (by decide)
    · cases hhint
  · rw [List.mem_singleton.1 hlast]
    decide

end Layout

theorem newline_not_mem_bodyLines {body line : String} (h : line ∈ bodyLines body) :
    '\n' ∉ line.toList := by
  unfold bodyLines at h
  split at h
  · cases h
  · exact Text.not_mem_of_splitString h

namespace ReportEntries

/-- The lines of the body that there is for a path. -/
def bodyOf (glyphs : Glyphs) (path : String) (entries : ReportEntries) : List String :=
  ((entries.bodies glyphs).lookup path).getD []

theorem bodyOf_of_mem {glyphs : Glyphs} {path : String} {lines : List String}
    {entries : ReportEntries} (hsorted : entries.paths.Pairwise (· < ·))
    (h : (path, lines) ∈ entries.bodies glyphs) : entries.bodyOf glyphs path = lines := by
  unfold bodyOf
  induction entries with
  | nil => cases h
  | cons head rest ih =>
    obtain ⟨p, entry⟩ := head
    obtain ⟨hfirst, hrest⟩ := List.pairwise_cons.1 hsorted
    rw [bodies, List.map_cons, ← bodies] at h ⊢
    rcases List.mem_cons.1 h with heq | hmem
    · obtain ⟨rfl, rfl⟩ := Prod.mk.inj heq
      rw [List.lookup_cons_self]
      rfl
    · have hpath : path ∈ paths rest := by
        obtain ⟨e, he, heq⟩ := List.mem_map.1 hmem
        obtain ⟨rfl, -⟩ := Prod.mk.inj heq
        exact List.mem_map_of_mem he
      have hne : (path == p) = false :=
        beq_false_of_ne fun heq => String.lt_irrefl p (heq ▸ hfirst path hpath)
      rw [List.lookup_cons, hne]
      exact ih hrest hmem

end ReportEntries

namespace DiffReport

/-- The lines of the body that the report has for a path. -/
def bodyOf (r : DiffReport) (path : String) : List String :=
  r.entries.bodyOf r.glyphs path

/-- A section shows the first lines of its body, and tells the number of the others. -/
theorem section_body {r : DiffReport} {s : Section} (hs : s ∈ r.layout.sections) :
    s.body <+: r.bodyOf s.path ∧ s.withheld = (r.bodyOf s.path).length - s.body.length ∧
      ∀ line ∈ s.body, '\n' ∉ line.toList := by
  obtain ⟨remaining, htiered, -⟩ := r.exists_tiered
  obtain ⟨lines, hmem, hbody, hwithheld⟩ := htiered.body s hs
  have hlines : r.bodyOf s.path = lines := ReportEntries.bodyOf_of_mem r.sorted hmem
  rw [hlines]
  refine ⟨hbody, hwithheld, ?_⟩
  intro line hline
  obtain ⟨e, -, heq⟩ := List.mem_map.1 hmem
  obtain ⟨-, rfl⟩ := Prod.mk.inj heq
  exact newline_not_mem_bodyLines (hbody.subset hline)

/-- A report is written exactly if there is room for 64 bytes in each of the lines that its limits
allow, however few lines it has. -/
theorem render_eq_ok {r : DiffReport} {text : String} :
    r.render = .ok text ↔
      r.limits.maxMessageLines * 64 < 2 ^ 63 ∧ text = r.layout.text r.limits := by
  simp only [render, Layout.render, bind_eq_ok, Checked.mul_eq_ok]
  constructor
  · rintro ⟨_, ⟨rfl, -⟩, _, hroom, ⟨⟩⟩
    exact ⟨Checked.reserve_eq_ok.1 hroom, rfl⟩
  · rintro ⟨hroom, rfl⟩
    exact ⟨_, ⟨rfl, by omega⟩, (), Checked.reserve_eq_ok.2 hroom, rfl⟩

theorem exists_render_iff {r : DiffReport} :
    (∃ text, r.render = .ok text) ↔ r.limits.maxMessageLines * 64 < 2 ^ 63 := by
  simp only [render_eq_ok, exists_and_left, exists_eq, and_true]

/-- The text of a report on paths without line breaks has the lines that are printed. -/
theorem linesOf_text {r : DiffReport} (h : ∀ p ∈ r.paths, '\n' ∉ p.toList) :
    Text.linesOf (r.layout.text r.limits) = (r.layout.lines r.limits).map (· ++ "\n") := by
  obtain ⟨remaining, htiered, hlayout⟩ := r.exists_tiered
  have hpaths : r.layout.sections.map (·.path) ++ remaining = r.paths := by
    rw [htiered.paths, ReportEntries.bodies, List.map_map]
    rfl
  rw [← hpaths] at h
  have hnamed : ∀ name ∈ r.layout.named, '\n' ∉ name.toList := by
    rcases Layout.ofTiers_cases r.limits r.layout.sections remaining with ⟨-, hl⟩ | ⟨-, hl⟩
    · rw [hlayout, hl]
      exact fun name hname => h name (List.mem_append_right _ hname)
    · rw [hlayout, hl]
      exact fun name hname => absurd hname List.not_mem_nil
  refine Text.linesOf_join fun line hline => ?_
  rw [Layout.lines_eq, List.mem_cons, List.mem_append, List.mem_flatMap] at hline
  rcases hline with rfl | ⟨s, hs, hline⟩ | hline
  · decide
  · have hpath := h s.path (List.mem_append_left _ (List.mem_map_of_mem hs))
    exact Layout.newline_not_mem_sectionLines hpath (section_body hs).2.2 line hline
  · exact Layout.newline_not_mem_closingLines hnamed line hline

theorem withheld_pos_iff {r : DiffReport} {s : Section} (hs : s ∈ r.layout.sections) :
    0 < s.withheld ↔ s.body ≠ r.bodyOf s.path := by
  obtain ⟨hbody, hwithheld, -⟩ := section_body hs
  have hle := hbody.length_le
  rw [hwithheld]
  constructor
  · intro hpos heq
    rw [← heq] at hpos
    omega
  · intro hne
    have hlt : s.body.length ≠ (r.bodyOf s.path).length :=
      fun heq => hne (hbody.eq_of_length heq)
    omega

/-- The files without a section are those that remain. -/
theorem filter_paths_eq {r : DiffReport} {remaining : List String}
    (h : r.layout.sections.map (·.path) ++ remaining = r.paths) :
    r.paths.filter (· ∉ r.layout.sections.map (·.path)) = remaining := by
  have hnodup : (r.layout.sections.map (·.path) ++ remaining).Nodup := h ▸ r.sorted.nodup
  have hdisjoint := List.disjoint_of_nodup_append hnodup
  have hshown : (r.layout.sections.map (·.path)).filter
      (· ∉ r.layout.sections.map (·.path)) = [] :=
    List.filter_eq_nil_iff.2 fun p hp => by simpa using hp
  have hkept : remaining.filter (· ∉ r.layout.sections.map (·.path)) = remaining :=
    List.filter_eq_self.2 fun p hp => decide_eq_true fun hmem => hdisjoint hmem hp
  rw [← h, List.filter_append, hshown, hkept, List.nil_append]

/-- The text of a report is bounded by its limits, however many files there are and however long
their bodies, and the numbers in it are true. The paths and bodies of the sections are followed by at
most one line that tells how many lines are missing, and these are those of the last section; all
others are whole. A line with a number of files stands for all files without a section. The hint is
given if and only if some file has no section, or some section does not show all of its body. There is
a text exactly if the limit of lines is below `2 ^ 57`, however short the text would be. -/
theorem render_bounded (r : DiffReport) (h : ∀ p ∈ r.paths, '\n' ∉ p.toList) :
    ((∃ text, r.render = .ok text) ↔ r.limits.maxMessageLines * 64 < 2 ^ 63) ∧
    ∀ text, r.render = .ok text →
      let l := r.layout
      let printed := Text.linesOf text
      let missing := r.paths.filter (· ∉ l.sections.map (·.path))
      printed.length ≤ r.limits.maxMessageLines + r.limits.maxFilesToList + 4 ∧
      (∃ (cut : Option ℕ) (rest : List String),
        printed = ("The following files have format violations:" ::
          (l.sections.flatMap Layout.shownLines ++ cut.toList.map Layout.moreLine ++ rest)).map
            (· ++ "\n") ∧
        (∀ n, Layout.moreLine n ∈ rest → ∃ p ∈ missing, Layout.moreLine n = "  " ++ p) ∧
        (∀ n, cut = some n ↔ 0 < n ∧ ∃ s, l.sections.getLast? = some s ∧
          s.body <+: r.bodyOf s.path ∧ s.body.length + n = (r.bodyOf s.path).length) ∧
        ∀ s ∈ l.sections.dropLast, s.body = r.bodyOf s.path) ∧
      (∀ n, Layout.countLine n ++ "\n" ∈ printed ↔
        0 < n ∧ r.limits.maxFilesToList ≤ n ∧ n = missing.length) ∧
      (Layout.hintLine r.limits ++ "\n" ∈ printed ↔
        missing ≠ [] ∨ ∃ s ∈ l.sections, s.body ≠ r.bodyOf s.path) := by
  refine ⟨exists_render_iff, fun text hrender => ?_⟩
  intro l printed missing
  obtain ⟨remaining, htiered, hlayout⟩ :
      ∃ remaining, Layout.Tiered r.limits 0 0 (r.entries.bodies r.glyphs) l.sections remaining ∧
        l = .ofTiers r.limits l.sections remaining := r.exists_tiered
  have hpaths : l.sections.map (·.path) ++ remaining = r.paths := by
    rw [htiered.paths, ReportEntries.bodies, List.map_map]
    rfl
  have hmissing : missing = remaining := filter_paths_eq hpaths
  have hprinted : printed = (l.lines r.limits).map (· ++ "\n") := by
    obtain ⟨-, rfl⟩ := render_eq_ok.1 hrender
    exact linesOf_text h
  have hmem (line : String) : line ++ "\n" ∈ printed ↔ line ∈ l.lines r.limits := by
    rw [hprinted, List.mem_map]
    simp
  have hcutLast : ∀ before s after, l.sections = before ++ s :: after → s.withheld ≠ 0 →
      after = [] := fun before s after hsplit hcut => (htiered.cut_last before s after hsplit hcut).1
  refine ⟨?_, ?_, ?_, ?_⟩
  · rw [hprinted, List.length_map, hlayout]
    exact Layout.length_lines_le _ _ _ (by simpa using htiered.used_le)
      (by simpa using htiered.shown_le) hcutLast
  · obtain ⟨cut, hlines, hcut, hwhole⟩ := Layout.exists_cut hcutLast
    refine ⟨cut, l.closingLines r.limits, ?_, ?_, ?_, ?_⟩
    · rw [hprinted, Layout.lines_eq, hlines]
    · intro n hn
      rw [hlayout] at hn
      rw [hmissing]
      exact Layout.exists_name_of_moreLine_mem hn
    · intro n
      rw [hcut n]
      refine and_congr_right fun hpos => exists_congr fun s => and_congr_right fun hs => ?_
      obtain ⟨hbody, hwithheld, -⟩ := section_body (List.mem_of_getLast? hs)
      have hle := hbody.length_le
      rw [hwithheld, and_iff_right hbody]
      omega
    · intro s hs
      have hsection := List.dropLast_subset _ hs
      by_contra hne
      exact absurd (hwhole s hs) ((withheld_pos_iff hsection).2 hne).ne'
  · intro n
    rw [hmem, hlayout, hmissing]
    exact Layout.countLine_mem_lines_ofTiers
  · have htruncated := congrArg Layout.isTruncated hlayout
    rw [hmem, Layout.hintLine_mem_lines, hmissing, htruncated, Layout.isTruncated_ofTiers]
    refine or_congr_right (exists_congr fun s => and_congr_right fun hs => ?_)
    exact withheld_pos_iff hs

/-- The text of `crowded` has no more than 11 lines. Two lines of `b` are missing, and two files. -/
theorem render_bounded_crowded :
    (∀ p ∈ crowded.paths, '\n' ∉ p.toList) ∧
    ∃ text, crowded.render = .ok text ∧
      (Text.linesOf text).length ≤ 11 ∧
      Layout.moreLine 2 ++ "\n" ∈ Text.linesOf text ∧
      Layout.countLine 2 ++ "\n" ∈ Text.linesOf text ∧
      Layout.hintLine ⟨5, 2⟩ ++ "\n" ∈ Text.linesOf text := by
  have hpaths : ∀ p ∈ crowded.paths, '\n' ∉ p.toList := by decide
  obtain ⟨hexists, hbounded⟩ := render_bounded crowded hpaths
  obtain ⟨text, hrender⟩ := hexists.2 (by decide)
  obtain ⟨hlength, ⟨cut, rest, htext, -, hcut, -⟩, hcount, hhint⟩ := hbounded text hrender
  have hlast : crowded.layout.sections.getLast? = some ⟨"b", ["@@ -1 +1 @@"], 2⟩ := by
    decide +kernel
  have hbody : crowded.bodyOf "b" = ["@@ -1 +1 @@", "-x␊", "+y␊"] := by decide +kernel
  have hmarker : cut = some 2 :=
    (hcut 2).2 ⟨by decide, _, hlast, by rw [hbody]; decide, by rw [hbody]; rfl⟩
  have hmissing : (crowded.paths.filter (· ∉ crowded.layout.sections.map (·.path))) =
      ["c", "d"] := by decide +kernel
  refine ⟨hpaths, text, hrender, hlength, ?_, ?_, ?_⟩
  · rw [htext, hmarker]
    simp
  · exact (hcount 2).2 ⟨by decide, by decide, by rw [hmissing]; rfl⟩
  · exact hhint.2 (Or.inl (by rw [hmissing]; decide))

/-- Twelve lines would show all of `crowded`; with a limit of `2 ^ 57` lines there is no room for
them. -/
theorem render_out_of_room :
    ({ crowded with limits := ⟨2 ^ 57, 4⟩ }.layout.lines ⟨2 ^ 57, 4⟩).length = 12 ∧
      { crowded with limits := ⟨2 ^ 57, 4⟩ }.render = .error (.capacity (2 ^ 63)) :=
  ⟨by decide +kernel, rfl⟩

end DiffReport

end StableFormat
