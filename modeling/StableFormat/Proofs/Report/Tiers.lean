import Mathlib.Data.List.Infix
import StableFormat.Report.DiffReport

/-!
# Proofs: the tiers of a report

The layout of a report is one of plain bodies by path: it does not matter how a body came about. The
files are taken in order, and the room that their sections use grows up to the limit and never
beyond it. The first file that finds no room ends the sections, since the room does not come back.
-/

namespace StableFormat

/-- What there is to show of each file. -/
def ReportEntries.bodies (glyphs : Glyphs) (entries : ReportEntries) :
    List (String × List String) :=
  entries.map fun e => (e.1, bodyLines (e.2.body glyphs))

variable {limits : ReportLimits} {used shown : ℕ} {path : String} {lines : List String}
  {bodies : List (String × List String)}

theorem haveRoom_iff : limits.haveRoom used shown = true ↔
    used < limits.maxMessageLines ∧ shown < limits.maxFilesToList := by
  rw [ReportLimits.haveRoom, Bool.and_eq_true, decide_eq_true_iff, decide_eq_true_iff]

namespace Section

theorem length_fitted (limits : ReportLimits) (used : ℕ) (path : String) (lines : List String) :
    (fitted limits used path lines).body.length =
      min lines.length (limits.maxMessageLines - (used + 1)) := by
  rw [fitted, List.length_take, Nat.min_assoc, Nat.min_comm _ lines.length, ← Nat.min_assoc,
    Nat.min_self]

theorem fitted_prefix : (fitted limits used path lines).body <+: lines :=
  List.take_prefix _ _

theorem withheld_fitted : (fitted limits used path lines).withheld =
    lines.length - (fitted limits used path lines).body.length := by
  rw [length_fitted]
  rfl

/-- The room that sections use. -/
def cost : List Section → ℕ
  | [] => 0
  | s :: rest => 1 + s.body.length + cost rest

end Section

namespace Layout

theorem budgetUsed_eq (l : Layout) : l.budgetUsed = Section.cost l.sections := by
  rw [budgetUsed]
  induction l.sections with
  | nil => rfl
  | cons s rest ih => rw [List.foldr_cons, Section.cost, ih]

/-- The sections of files with these bodies, and the paths that remain. So many lines of room are
used, and so many sections shown, before. -/
def tiers (limits : ReportLimits) :
    (used shown : ℕ) → List (String × List String) → List Section × List String
  | _, _, [] => ([], [])
  | used, shown, (path, lines) :: rest =>
    if limits.haveRoom used shown then
      let first := Section.fitted limits used path lines
      let (sections, remaining) := tiers limits (used + 1 + first.body.length) (shown + 1) rest
      (first :: sections, remaining)
    else ([], path :: rest.map (·.1))

theorem tiers_room (h : limits.haveRoom used shown = true)
    (rest : List (String × List String)) :
    tiers limits used shown ((path, lines) :: rest) =
      (.fitted limits used path lines ::
          (tiers limits (used + 1 + (Section.fitted limits used path lines).body.length)
            (shown + 1) rest).1,
        (tiers limits (used + 1 + (Section.fitted limits used path lines).body.length)
          (shown + 1) rest).2) := by
  rw [tiers, if_pos h]

theorem tiers_full (h : limits.haveRoom used shown = false)
    (bodies : List (String × List String)) :
    tiers limits used shown bodies = ([], bodies.map (·.1)) := by
  cases bodies with
  | nil => rfl
  | cons first rest => simp [tiers, h]

/-- The layout of files with these bodies. -/
def ofBodies (limits : ReportLimits) (bodies : List (String × List String)) : Layout :=
  ofTiers limits (tiers limits 0 0 bodies).1 (tiers limits 0 0 bodies).2

/-- Bodies that are computed on the way are those that the entries have. -/
theorem place_eq_tiers (limits : ReportLimits) (glyphs : Glyphs) (used shown : ℕ)
    (entries : ReportEntries) :
    (entries.place limits glyphs used shown).1 =
        (tiers limits used shown (entries.bodies glyphs)).1 ∧
      (entries.place limits glyphs used shown).2.1 =
        (tiers limits used shown (entries.bodies glyphs)).2 := by
  induction entries generalizing used shown with
  | nil => exact ⟨rfl, rfl⟩
  | cons entry rest ih =>
    obtain ⟨path, entry⟩ := entry
    have hbodies : ReportEntries.bodies glyphs ((path, entry) :: rest) =
        (path, bodyLines (entry.body glyphs)) :: ReportEntries.bodies glyphs rest := rfl
    rw [hbodies, ReportEntries.place]
    cases hroom : limits.haveRoom used shown with
    | true =>
      obtain ⟨hsections, hremaining⟩ := ih (used + 1 +
        (Section.fitted limits used path (bodyLines (entry.body glyphs))).body.length) (shown + 1)
      rw [tiers_room hroom, if_pos rfl]
      exact ⟨congrArg _ hsections, hremaining⟩
    | false =>
      rw [tiers_full hroom, if_neg Bool.false_ne_true]
      refine ⟨rfl, ?_⟩
      simp [ReportEntries.paths, ReportEntries.bodies]

/-! ## What holds of all tiers -/

/-- What is true of the sections and the remaining paths of files, with so many lines of room used
and so many sections shown before. -/
structure Tiered (limits : ReportLimits) (used shown : ℕ) (bodies : List (String × List String))
    (sections : List Section) (remaining : List String) : Prop where
  paths : sections.map (·.path) ++ remaining = bodies.map (·.1)
  used_le : used + Section.cost sections ≤ limits.maxMessageLines
  shown_le : shown + sections.length ≤ limits.maxFilesToList
  full : remaining ≠ [] → used + Section.cost sections = limits.maxMessageLines ∨
    shown + sections.length = limits.maxFilesToList
  body : ∀ s ∈ sections, ∃ lines, (s.path, lines) ∈ bodies ∧ s.body <+: lines ∧
    s.withheld = lines.length - s.body.length
  cut_last : ∀ before s after, sections = before ++ s :: after → s.withheld ≠ 0 →
    after = [] ∧ used + Section.cost sections = limits.maxMessageLines

theorem Tiered.no_section (hused : used ≤ limits.maxMessageLines)
    (hshown : shown ≤ limits.maxFilesToList) (h : limits.haveRoom used shown = false) :
    Tiered limits used shown bodies [] (bodies.map (·.1)) where
  paths := rfl
  used_le := hused
  shown_le := hshown
  full := by
    intro _
    have hroom : ¬ (used < limits.maxMessageLines ∧ shown < limits.maxFilesToList) := by
      rw [← haveRoom_iff, h]
      exact Bool.false_ne_true
    rw [Section.cost, List.length_nil]
    omega
  body := by simp
  cut_last := by simp

/-- The step lemma of the tiers: one more section before the others. -/
theorem Tiered.add_section {sections : List Section} {remaining : List String}
    (hroom : limits.haveRoom used shown = true)
    (h : Tiered limits (used + 1 + (Section.fitted limits used path lines).body.length) (shown + 1)
      bodies sections remaining) :
    Tiered limits used shown ((path, lines) :: bodies)
      (Section.fitted limits used path lines :: sections) remaining := by
  generalize hfirst : Section.fitted limits used path lines = first at h
  have hpath : first.path = path := by rw [← hfirst]; rfl
  have hlength : first.body.length = min lines.length (limits.maxMessageLines - (used + 1)) := by
    rw [← hfirst, Section.length_fitted]
  have hwithheld : first.withheld = lines.length - first.body.length := by
    rw [← hfirst, Section.withheld_fitted]
  have hcost : used + Section.cost (first :: sections) =
      used + 1 + first.body.length + Section.cost sections := by
    rw [Section.cost]
    omega
  have hshown : shown + (first :: sections).length = shown + 1 + sections.length := by
    rw [List.length_cons]
    omega
  refine ⟨?_, ?_, ?_, ?_, ?_, ?_⟩
  · rw [List.map_cons, List.map_cons, List.cons_append, h.paths, hpath]
  · rw [hcost]
    exact h.used_le
  · rw [hshown]
    exact h.shown_le
  · rw [hcost, hshown]
    exact h.full
  · intro s hs
    rcases List.mem_cons.1 hs with rfl | hs
    · refine ⟨lines, ?_, ?_, hwithheld⟩
      · rw [hpath]
        exact List.mem_cons_self
      · rw [← hfirst]
        exact Section.fitted_prefix
    · obtain ⟨lines', hmem, hbody⟩ := h.body s hs
      exact ⟨lines', List.mem_cons_of_mem _ hmem, hbody⟩
  · intro before s after hsplit hcut
    rw [hcost]
    cases before with
    | nil =>
      obtain ⟨rfl, rfl⟩ := List.cons.inj hsplit
      -- A first section that does not fit uses up the room, and the others get none.
      have hused : used < limits.maxMessageLines := (haveRoom_iff.1 hroom).1
      have hrest := h.used_le
      have hzero : Section.cost sections = 0 := by omega
      refine ⟨?_, by omega⟩
      cases sections with
      | nil => rfl
      | cons next others =>
        rw [Section.cost] at hzero
        omega
    | cons head before =>
      obtain ⟨-, hsplit⟩ := List.cons.inj hsplit
      exact h.cut_last before s after hsplit hcut

/-- The tiers of any files are as they should be. -/
theorem tiered_tiers (hused : used ≤ limits.maxMessageLines)
    (hshown : shown ≤ limits.maxFilesToList) (bodies : List (String × List String)) :
    Tiered limits used shown bodies (tiers limits used shown bodies).1
      (tiers limits used shown bodies).2 := by
  induction bodies generalizing used shown with
  | nil => exact ⟨rfl, hused, hshown, by simp [tiers], by simp [tiers], by simp [tiers]⟩
  | cons first rest ih =>
    obtain ⟨path, lines⟩ := first
    cases hroom : limits.haveRoom used shown with
    | true =>
      obtain ⟨hlines, hfiles⟩ := haveRoom_iff.1 hroom
      have hlength := Section.length_fitted limits used path lines
      rw [tiers_room hroom]
      exact .add_section hroom (ih (by omega) hfiles)
    | false =>
      rw [tiers_full hroom]
      exact .no_section hused hshown hroom

end Layout

namespace DiffReport

theorem layout_eq_ofBodies (r : DiffReport) :
    r.layout = Layout.ofBodies r.limits (r.entries.bodies r.glyphs) := by
  obtain ⟨hsections, hremaining⟩ := Layout.place_eq_tiers r.limits r.glyphs 0 0 r.entries
  rw [layout, Layout.ofBodies, ← hsections, ← hremaining]

/-- The layout of a report has the tiers of its entries. -/
theorem exists_tiered (r : DiffReport) : ∃ remaining,
    Layout.Tiered r.limits 0 0 (r.entries.bodies r.glyphs) r.layout.sections remaining ∧
      r.layout = .ofTiers r.limits r.layout.sections remaining := by
  have hlayout := r.layout_eq_ofBodies
  have hsections : r.layout.sections =
      (Layout.tiers r.limits 0 0 (r.entries.bodies r.glyphs)).1 := by
    rw [hlayout, Layout.ofBodies, Layout.ofTiers]
    split <;> rfl
  refine ⟨(Layout.tiers r.limits 0 0 (r.entries.bodies r.glyphs)).2, ?_, ?_⟩
  · rw [hsections]
    exact Layout.tiered_tiers (Nat.zero_le _) (Nat.zero_le _) _
  · rw [hsections]
    exact hlayout

/-- Every path of a report is in one tier. The paths with a section come first, and the others are
all named or, from the limit on, all counted. Sections keep to the limits of lines and files, and
files without a section mean that one of the limits is reached. Every section shows the first lines
of its body and tells how many it withholds; only the last one withholds any, for want of room. -/
theorem layout_partition (r : DiffReport) :
    let l := r.layout
    (∃ remaining,
      l.sections.map (·.path) ++ remaining = r.paths ∧ r.paths.Pairwise (· < ·) ∧
      ((l.named = remaining ∧ l.counted = 0 ∧ remaining.length < r.limits.maxFilesToList) ∨
        (l.named = [] ∧ l.counted = remaining.length ∧
          r.limits.maxFilesToList ≤ remaining.length)) ∧
      (remaining ≠ [] → l.budgetUsed = r.limits.maxMessageLines ∨
        l.sections.length = r.limits.maxFilesToList)) ∧
    l.budgetUsed ≤ r.limits.maxMessageLines ∧
    l.sections.length ≤ r.limits.maxFilesToList ∧
    (∀ s ∈ l.sections, ∃ entry, (s.path, entry) ∈ r.entries ∧
      s.body <+: bodyLines (entry.body r.glyphs) ∧
      s.withheld = (bodyLines (entry.body r.glyphs)).length - s.body.length) ∧
    (∀ before s after, l.sections = before ++ s :: after → s.withheld ≠ 0 →
      after = [] ∧ l.budgetUsed = r.limits.maxMessageLines) := by
  intro l
  generalize hbodies : r.entries.bodies r.glyphs = bodies
  have htiered : Layout.Tiered r.limits 0 0 bodies _ _ :=
    Layout.tiered_tiers (Nat.zero_le _) (Nat.zero_le _) bodies
  have hl : l = .ofBodies r.limits bodies := by rw [← hbodies, ← r.layout_eq_ofBodies]
  have hsections : l.sections = (Layout.tiers r.limits 0 0 bodies).1 := by
    rw [hl, Layout.ofBodies, Layout.ofTiers]
    split <;> rfl
  have hpaths : bodies.map (·.1) = r.paths := by
    rw [← hbodies, ReportEntries.bodies, List.map_map]
    rfl
  rw [← hsections] at htiered
  rw [Layout.budgetUsed_eq]
  refine ⟨⟨_, htiered.paths.trans hpaths, r.sorted, ?_, ?_⟩, ?_, ?_, ?_, ?_⟩
  · rw [hl, Layout.ofBodies, Layout.ofTiers]
    split
    · next hmany => exact Or.inr ⟨rfl, rfl, hmany⟩
    · next hfew => exact Or.inl ⟨rfl, rfl, Nat.not_le.1 hfew⟩
  · simpa using htiered.full
  · simpa using htiered.used_le
  · simpa using htiered.shown_le
  · intro s hs
    obtain ⟨lines, hmem, hbody⟩ := htiered.body s hs
    rw [← hbodies, ReportEntries.bodies, List.mem_map] at hmem
    obtain ⟨⟨path, entry⟩, hentry, heq⟩ := hmem
    obtain ⟨rfl, rfl⟩ := Prod.mk.inj heq
    exact ⟨entry, hentry, hbody⟩
  · simpa using htiered.cut_last

/-- A report on four files with room for five lines and two sections. -/
def crowded : DiffReport :=
  ((((empty ⟨5, 2⟩).add "d" "1").add "c" "").addDiff "b" "x\n" "y\n").add "a" "1\n2"

/-- The second section of `crowded` is cut where the room ends, and the others are counted. -/
theorem layout_partition_crowded :
    crowded.layout.sections.map (·.withheld) = [0, 2] ∧ crowded.layout.budgetUsed = 5 ∧
      crowded.layout.counted = 2 := by
  obtain ⟨-, -, -, -, hcut⟩ := layout_partition crowded
  have hsections : crowded.layout.sections =
      [⟨"a", ["1", "2"], 0⟩] ++ ⟨"b", ["@@ -1 +1 @@"], 2⟩ :: [] := by decide +kernel
  exact ⟨by rw [hsections]; rfl, (hcut _ _ _ hsections (by decide)).2, by decide +kernel⟩

end DiffReport

end StableFormat
