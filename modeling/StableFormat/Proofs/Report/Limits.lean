import Mathlib.Algebra.Ring.Nat
import StableFormat.Proofs.Report.Growth
import StableFormat.Proofs.Report.Rendering

/-!
# Proofs: the tiers of a report as its limits are raised

Limits that leave more room never hide anything that was there before: what has a section keeps it
and does not get shorter, and what is named is not only counted. With room for all lines of all files
the report is the list of its bodies, and has nothing to hint at.
-/

namespace StableFormat

variable {limits : ReportLimits} {used shown : ℕ} {path : String} {lines : List String}
  {bodies : List (String × List String)}

theorem Section.fitted_of_le (h : used + 1 + lines.length ≤ limits.maxMessageLines) :
    fitted limits used path lines = ⟨path, lines, 0⟩ := by
  have hfit : min lines.length (limits.maxMessageLines - (used + 1)) = lines.length := by
    omega
  simp only [fitted, hfit, List.take_length, Nat.sub_self]

namespace Layout

theorem demand_eq_sum (bodies : List (String × List String)) :
    demand bodies = (bodies.map fun b => 1 + b.2.length).sum := by
  induction bodies with
  | nil => rfl
  | cons b rest ih => rw [demand, ih, List.map_cons, List.sum_cons]

/-- Files that there is room for are shown, and no line of them is left out. -/
theorem tiers_of_demand_le (hlines : used + demand bodies ≤ limits.maxMessageLines)
    (hfiles : shown + bodies.length ≤ limits.maxFilesToList) :
    tiers limits used shown bodies = (bodies.map fun b => ⟨b.1, b.2, 0⟩, []) := by
  induction bodies generalizing used shown with
  | nil => rfl
  | cons b rest ih =>
    obtain ⟨path, lines⟩ := b
    have hdemand : demand ((path, lines) :: rest) = 1 + lines.length + demand rest := rfl
    rw [List.length_cons] at hfiles
    have hroom : limits.haveRoom used shown = true := haveRoom_iff.2 ⟨by omega, by omega⟩
    have hfirst : Section.fitted limits used path lines = ⟨path, lines, 0⟩ :=
      Section.fitted_of_le (by omega)
    have hrest : used + 1 + lines.length + demand rest ≤ limits.maxMessageLines := by omega
    rw [tiers_room hroom, hfirst, ih hrest (by omega), List.map_cons]

theorem ofBodies_of_demand_le (hlines : demand bodies ≤ limits.maxMessageLines)
    (hfiles : bodies.length ≤ limits.maxFilesToList) :
    ofBodies limits bodies = ⟨bodies.map fun b => ⟨b.1, b.2, 0⟩, [], 0⟩ := by
  unfold ofBodies
  rw [tiers_of_demand_le (by omega) (by omega)]
  unfold ofTiers
  split <;> rfl

/-- The lines of a report in which nothing is missing. -/
theorem lines_of_whole (limits : ReportLimits) (bodies : List (String × List String)) :
    Layout.lines limits ⟨bodies.map fun b => ⟨b.1, b.2, 0⟩, [], 0⟩ =
      "The following files have format violations:" ::
        (bodies.flatMap fun b => ("  " ++ b.1) :: b.2.map ("    " ++ ·)) ++
        ["Run 'padcell apply' to fix these violations."] := by
  have hsections : (bodies.map fun b => (⟨b.1, b.2, 0⟩ : Section)).flatMap sectionLines =
      bodies.flatMap fun b => ("  " ++ b.1) :: b.2.map ("    " ++ ·) := by
    rw [List.flatMap_map]
    refine List.flatMap_congr fun b _ => ?_
    rw [sectionLines_eq, if_neg (lt_irrefl 0), List.append_nil]
    rfl
  have htruncated : isTruncated ⟨bodies.map fun b => ⟨b.1, b.2, 0⟩, [], 0⟩ = false := by
    simp [isTruncated]
  rw [lines_eq, hsections]
  unfold closingLines
  rw [htruncated]
  rfl

end Layout

namespace DiffReport

/-- The report with other limits. -/
def withLimits (r : DiffReport) (limits : ReportLimits) : DiffReport :=
  { r with limits := limits }

/-- Limits that are raised hide nothing, as long as the report can be written with them. No path gets
to a worse tier, and of no path fewer lines are shown. If there is room for the paths and bodies of all
entries, and for as many files, then every entry has a section with its whole body, no file is named or
counted, and the text, if there is one, consists of the bodies alone, without the hint at the limits.
There is a text exactly for limits of less than `2 ^ 57` lines. -/
theorem raise_limits_improves (r : DiffReport) (limits : ReportLimits)
    (h : r.limits.Within limits) :
    let raised := r.withLimits limits
    ((∃ text, raised.render = .ok text) ↔ limits.maxMessageLines * 64 < 2 ^ 63) ∧
    (∀ p ∈ r.paths, (raised.layout.tier p).rank ≤ (r.layout.tier p).rank ∧
      r.layout.linesShown p ≤ raised.layout.linesShown p) ∧
    ((r.entries.map fun e => 1 + (bodyLines (e.2.body r.glyphs)).length).sum ≤
        limits.maxMessageLines → r.entries.length ≤ limits.maxFilesToList →
      raised.layout =
          ⟨r.entries.map fun e => ⟨e.1, bodyLines (e.2.body r.glyphs), 0⟩, [], 0⟩ ∧
        (∀ text, raised.render = .ok text → text = String.join
          (("The following files have format violations:" ::
              (r.entries.flatMap fun e =>
                ("  " ++ e.1) :: (bodyLines (e.2.body r.glyphs)).map ("    " ++ ·)) ++
              ["Run 'padcell apply' to fix these violations."]).map (· ++ "\n"))) ∧
        Layout.hintLine limits ∉ raised.layout.lines limits) := by
  intro raised
  have hraised : raised.layout = .ofBodies limits (r.entries.bodies r.glyphs) :=
    raised.layout_eq_ofBodies
  refine ⟨exists_render_iff, ?_, ?_⟩
  · intro p hp
    obtain ⟨⟨p, e⟩, he, rfl⟩ := List.mem_map.1 hp
    have hsame := Layout.Outgrown.refl (r.entries.bodies r.glyphs)
    have hsorted := ReportEntries.bodies_sorted r.glyphs r.sorted
    have hmem := ReportEntries.mem_bodies r.glyphs he
    rw [hraised, layout_eq_ofBodies]
    exact ⟨hsame.rank_tier_le_within h hsorted hsorted hmem hmem,
      hsame.linesShown_le_within h hsorted hsorted hmem hmem⟩
  · intro hlines hfiles
    have hdemand : Layout.demand (r.entries.bodies r.glyphs) ≤ limits.maxMessageLines := by
      rw [Layout.demand_eq_sum, ReportEntries.bodies, List.map_map]
      exact hlines
    have hlength : (r.entries.bodies r.glyphs).length ≤ limits.maxFilesToList := by
      rw [ReportEntries.bodies, List.length_map]
      exact hfiles
    have hlayout := hraised.trans (Layout.ofBodies_of_demand_le hdemand hlength)
    refine ⟨?_, ?_, ?_⟩
    · rw [hlayout, ReportEntries.bodies, List.map_map]
      rfl
    · intro text hrender
      obtain ⟨-, rfl⟩ := render_eq_ok.1 hrender
      show Layout.text limits raised.layout = _
      rw [hlayout, Layout.text, Layout.lines_of_whole, ReportEntries.bodies, List.flatMap_map]
    · rw [Layout.hintLine_mem_lines, hlayout]
      simp [Layout.isTruncated]

/-- With one more line and one more file, `crowded` shows more of `b`, and `c` and `d` are named; with
room for ten lines and four files, it is shown in full. -/
theorem raise_limits_improves_crowded :
    crowded.limits.Within ⟨6, 3⟩ ∧ crowded.limits.Within ⟨10, 4⟩ ∧
      ((crowded.withLimits ⟨6, 3⟩).layout.tier "d").rank ≤ (crowded.layout.tier "d").rank ∧
      crowded.layout.linesShown "b" ≤ (crowded.withLimits ⟨6, 3⟩).layout.linesShown "b" ∧
      (∃ text, (crowded.withLimits ⟨10, 4⟩).render = .ok text) ∧
      (crowded.withLimits ⟨10, 4⟩).layout.sections.map (·.body) =
        [["1", "2"], ["@@ -1 +1 @@", "-x␊", "+y␊"], [], ["1"]] ∧
      Layout.hintLine ⟨10, 4⟩ ∉ (crowded.withLimits ⟨10, 4⟩).layout.lines ⟨10, 4⟩ := by
  have hsome : crowded.limits.Within ⟨6, 3⟩ := ⟨by decide, by decide⟩
  have hall : crowded.limits.Within ⟨10, 4⟩ := ⟨by decide, by decide⟩
  obtain ⟨-, hbetter, -⟩ := raise_limits_improves crowded ⟨6, 3⟩ hsome
  obtain ⟨hwritten, -, hwhole⟩ := raise_limits_improves crowded ⟨10, 4⟩ hall
  obtain ⟨hlayout, -, hhint⟩ := hwhole (by decide +kernel) (by decide)
  refine ⟨hsome, hall, (hbetter "d" (by decide)).1, (hbetter "b" (by decide)).2,
    hwritten.2 (by decide), ?_, hhint⟩
  rw [hlayout]
  decide +kernel

/-- With its limits raised to `2 ^ 57` lines, the text that `crowded` had is gone. -/
theorem raise_limits_out_of_room :
    crowded.limits.Within ⟨2 ^ 57, 2⟩ ∧ crowded.render = .ok (crowded.layout.text crowded.limits) ∧
      (crowded.withLimits ⟨2 ^ 57, 2⟩).render = .error (.capacity (2 ^ 63)) :=
  ⟨⟨by decide, by decide⟩, rfl, rfl⟩

end DiffReport

end StableFormat
