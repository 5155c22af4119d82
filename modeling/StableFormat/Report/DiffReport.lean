import StableFormat.Diff.FileDiff
import StableFormat.Report.Layout

/-!
# Reports on violations

A report collects what is wrong with each file: a body that is given, or the difference between two
texts, which is computed only when the file gets a section. A difference that has been computed is
kept, with the glyphs of that moment.
-/

namespace StableFormat

/-- What a report has on a file. -/
inductive ReportEntry where
  | ready (body : String)
  | pending (actual expected : String)
  deriving DecidableEq, Repr, Inhabited

namespace ReportEntry

/-- The body of an entry; a difference is computed with these glyphs. -/
def body (glyphs : Glyphs) : ReportEntry → String
  | ready body => body
  | pending actual expected => renderDiff actual expected glyphs

end ReportEntry

/-- Entries by path. -/
abbrev ReportEntries := List (String × ReportEntry)

namespace ReportEntries

/-- The paths, in order. -/
def paths (entries : ReportEntries) : List String :=
  entries.map (·.1)

/-- Puts an entry at its place by path; it replaces an entry with the same path. -/
def insert (path : String) (entry : ReportEntry) : ReportEntries → ReportEntries
  | [] => [(path, entry)]
  | (p, e) :: rest =>
    if path < p then (path, entry) :: (p, e) :: rest
    else if path = p then (path, entry) :: rest
    else (p, e) :: insert path entry rest

/-- The paths after an insertion are the old ones and the new one. -/
theorem mem_paths_insert {path p : String} {entry : ReportEntry} {entries : ReportEntries} :
    p ∈ (insert path entry entries).paths ↔ p = path ∨ p ∈ entries.paths := by
  induction entries with
  | nil => simp [insert, paths]
  | cons head rest ih =>
    obtain ⟨q, e⟩ := head
    simp only [insert]
    split
    · simp [paths]
    · split
      · next heq => subst heq; simp [paths]
      · simp only [paths, List.map_cons, List.mem_cons] at ih ⊢
        rw [ih]
        constructor <;> (rintro (h | h | h) <;> simp [h])

/-- An insertion keeps the order of the paths. -/
theorem sorted_insert {path : String} {entry : ReportEntry} {entries : ReportEntries}
    (h : entries.paths.Pairwise (· < ·)) : (insert path entry entries).paths.Pairwise (· < ·) := by
  induction entries with
  | nil => simp [insert, paths]
  | cons head rest ih =>
    obtain ⟨q, e⟩ := head
    simp only [paths, List.map_cons, List.pairwise_cons] at h ih
    obtain ⟨hq, hrest⟩ := h
    simp only [insert]
    split
    · next hlt =>
      simp only [paths, List.map_cons, List.pairwise_cons, List.mem_cons]
      refine ⟨?_, hq, hrest⟩
      rintro p (rfl | hp)
      · exact hlt
      · exact String.lt_trans hlt (hq p hp)
    · split
      · next heq =>
        subst heq
        simp only [paths, List.map_cons, List.pairwise_cons]
        exact ⟨hq, hrest⟩
      · next hnlt hne =>
        simp only [paths, List.map_cons, List.pairwise_cons]
        refine ⟨?_, ih hrest⟩
        intro p hp
        rcases mem_paths_insert.1 hp with rfl | hp
        · exact Std.lt_of_le_of_ne (String.not_lt.1 hnlt) (Ne.symm hne)
        · exact hq p hp

/-- The entries after an insertion are the new one and the old ones with other paths. -/
theorem mem_insert {path : String} {entry : ReportEntry} {entries : ReportEntries}
    (h : entries.paths.Pairwise (· < ·)) {e : String × ReportEntry} :
    e ∈ insert path entry entries ↔ e = (path, entry) ∨ (e ∈ entries ∧ e.1 ≠ path) := by
  induction entries with
  | nil => simp [insert]
  | cons head rest ih =>
    obtain ⟨q, old⟩ := head
    simp only [paths, List.map_cons, List.pairwise_cons] at h ih
    obtain ⟨hq, hrest⟩ := h
    -- Behind a path that is not below `path`, all paths are other ones.
    have hbehind : ∀ x ∈ rest, path < q ∨ path = q → x.1 ≠ path := by
      intro x hx hle heq
      have hlt : q < path := heq ▸ hq x.1 (List.mem_map_of_mem hx)
      rcases hle with hle | hle
      · exact String.lt_asymm hlt hle
      · exact String.lt_irrefl q (hle ▸ hlt)
    simp only [insert]
    split
    · next hlt =>
      have hne : q ≠ path := fun heq => String.lt_irrefl q (heq ▸ hlt)
      simp only [List.mem_cons]
      constructor
      · rintro (rfl | rfl | hx)
        · exact Or.inl rfl
        · exact Or.inr ⟨Or.inl rfl, hne⟩
        · exact Or.inr ⟨Or.inr hx, hbehind e hx (Or.inl hlt)⟩
      · rintro (rfl | ⟨hx, -⟩)
        · exact Or.inl rfl
        · exact Or.inr hx
    · split
      · next heq =>
        simp only [List.mem_cons]
        constructor
        · rintro (rfl | hx)
          · exact Or.inl rfl
          · exact Or.inr ⟨Or.inr hx, hbehind e hx (Or.inr heq)⟩
        · rintro (rfl | ⟨rfl | hx, hne⟩)
          · exact Or.inl rfl
          · exact absurd heq.symm hne
          · exact Or.inr hx
      · next hne =>
        rw [List.mem_cons, ih hrest, List.mem_cons]
        constructor
        · rintro (rfl | rfl | ⟨hx, hx'⟩)
          · exact Or.inr ⟨Or.inl rfl, fun heq => hne heq.symm⟩
          · exact Or.inl rfl
          · exact Or.inr ⟨Or.inr hx, hx'⟩
        · rintro (rfl | ⟨rfl | hx, hx'⟩)
          · exact Or.inr (Or.inl rfl)
          · exact Or.inl rfl
          · exact Or.inr (Or.inr ⟨hx, hx'⟩)

/-- The entries in tiers: the sections, the paths that remain, and the entries with the bodies that
were computed on the way. So many lines of room are used, and so many sections shown, before. -/
def place (limits : ReportLimits) (glyphs : Glyphs) :
    (used shown : Nat) → ReportEntries → List Section × List String × ReportEntries
  | _, _, [] => ([], [], [])
  | used, shown, (path, entry) :: rest =>
    if limits.haveRoom used shown then
      let body := entry.body glyphs
      let first := Section.fitted limits used path (bodyLines body)
      let (sections, remaining, entries) :=
        place limits glyphs (used + 1 + first.body.length) (shown + 1) rest
      (first :: sections, remaining, (path, .ready body) :: entries)
    else ([], path :: paths rest, (path, entry) :: rest)

/-- Computing bodies keeps the paths. -/
theorem paths_place (limits : ReportLimits) (glyphs : Glyphs) (used shown : Nat)
    (entries : ReportEntries) : (place limits glyphs used shown entries).2.2.paths = entries.paths := by
  induction entries generalizing used shown with
  | nil => rfl
  | cons head rest ih =>
    simp only [place]
    split
    · simp only [paths, List.map_cons] at ih ⊢
      rw [ih]
    · rfl

end ReportEntries

/-- A report: its limits, the glyphs of the bodies that are still to be computed, and its entries in
the order of their paths. -/
structure DiffReport where
  limits : ReportLimits
  glyphs : Glyphs
  entries : ReportEntries
  sorted : entries.paths.Pairwise (· < ·)

namespace DiffReport

/-- A report on no file. -/
def empty (limits : ReportLimits) : DiffReport :=
  ⟨limits, .fancy, [], .nil⟩

/-- Changes the glyphs of the bodies that are still to be computed. -/
def withGlyphs (r : DiffReport) (glyphs : Glyphs) : DiffReport :=
  { r with glyphs := glyphs }

/-- Adds an entry; it replaces an earlier one with the same path. -/
def insert (r : DiffReport) (path : String) (entry : ReportEntry) : DiffReport :=
  { r with
    entries := r.entries.insert path entry
    sorted := ReportEntries.sorted_insert r.sorted }

/-- Adds a body. -/
def add (r : DiffReport) (path body : String) : DiffReport :=
  r.insert path (.ready body)

/-- Adds the difference between two texts, to be computed when it is needed. -/
def addDiff (r : DiffReport) (path actual expected : String) : DiffReport :=
  r.insert path (.pending actual expected)

/-- The paths, in order. -/
def paths (r : DiffReport) : List String :=
  r.entries.paths

/-- The report is on no file. -/
def isEmpty (r : DiffReport) : Bool :=
  r.entries.isEmpty

/-- The tier of every file. -/
def layout (r : DiffReport) : Layout :=
  let (sections, remaining, _) := r.entries.place r.limits r.glyphs 0 0
  .ofTiers r.limits sections remaining

/-- The report after its layout: the bodies that were needed have been computed. -/
def afterLayout (r : DiffReport) : DiffReport :=
  { r with
    entries := (r.entries.place r.limits r.glyphs 0 0).2.2
    sorted := by rw [ReportEntries.paths_place]; exact r.sorted }

/-- Writes the text of the report. -/
def render (r : DiffReport) : Checked String :=
  r.layout.render r.limits

end DiffReport

end StableFormat
