import StableFormat.Proofs.Report.Laziness
import StableFormat.Proofs.Run.Decomposition

/-!
# Proofs: announcing violations

With annotations a run announces every violation that it puts into its report. It then computes the
differences at once and not when the report needs them, and hands on their texts. Nothing else about
the run depends on it: the report has the same entries, and lays them out and shows them in the same
way.
-/

namespace StableFormat.Collector

variable (c : Collector) {mode : Mode} {rootPrefix : String} {report : DiffReport}
  {entries : List (String × Probe)}

/-- The collector with other annotations. -/
def withAnnotations (annotations : Option String) : Collector :=
  { c with settings := { c.settings with annotations := annotations } }

/-- A check puts the file into its report. -/
def reports (mode : Mode) (file : FileOutcome) : Bool :=
  match mode, file.result with
  | .check, .probed p => !p.isClean && p.hasViolation && !c.isMisbehaving p
  | _, _ => false

/-- The difference that settles a violation. -/
def differenceOf (entry : String × Probe) : String × ReportEntry :=
  (entry.1, .pending entry.2.start entry.2.safeOutput)

theorem reportedOf_eq (mode : Mode) (file : FileOutcome) :
    (c.reportedOf mode file).map (fun entry => ⟨entry.1, .probed entry.2⟩) =
      if c.reports mode file then [file] else [] := by
  obtain ⟨path, result⟩ := file
  cases mode with
  | apply => rfl
  | check =>
    cases result with
    | skipped => rfl
    | failed e => rfl
    | probed p =>
      cases hclean : p.isClean <;> cases hv : p.hasViolation <;> cases hm : c.isMisbehaving p <;>
        simp [reportedOf, reports, FileOutcome.violation?, hclean, hv, hm]

/-- What is handed to the report comes from the files that a check reports, in their order. -/
theorem reported_eq_filter (mode : Mode) (outcomes : List FileOutcome) :
    (outcomes.flatMap (c.reportedOf mode)).map (fun entry => ⟨entry.1, .probed entry.2⟩) =
      outcomes.filter (c.reports mode) := by
  induction outcomes with
  | nil => rfl
  | cons file rest ih =>
    rw [List.flatMap_cons, List.map_append, reportedOf_eq, ih, List.filter_cons]
    split <;> rfl

/-! ## The two reports -/

/-- Without annotations the report has the differences themselves, and shows them with the glyphs that
it had before. -/
theorem foldl_addEntry_silent (entries : List (String × Probe)) (report : DiffReport) :
    (entries.foldl (c.withAnnotations none).addEntry report).limits = report.limits ∧
      (entries.foldl (c.withAnnotations none).addEntry report).glyphs = report.glyphs ∧
      (entries.foldl (c.withAnnotations none).addEntry report).entries =
        report.entries.insertAll (entries.map differenceOf) := by
  induction entries generalizing report with
  | nil => exact ⟨rfl, rfl, rfl⟩
  | cons entry rest ih => exact ih ((c.withAnnotations none).addEntry report entry)

/-- With annotations the report has the texts of the differences. -/
theorem foldl_addEntry_announced (rootPrefix : String) (entries : List (String × Probe))
    {added : ReportEntries}
    (h : report.entries = added.computed c.settings.glyphs) :
    (entries.foldl (c.withAnnotations (some rootPrefix)).addEntry report).limits = report.limits ∧
      (entries.foldl (c.withAnnotations (some rootPrefix)).addEntry report).entries =
        (ReportEntries.insertAll (entries.map differenceOf) added).computed c.settings.glyphs := by
  have hadd := DiffReport.foldl_add_eq (entries.map differenceOf) h
  rw [List.foldl_map] at hadd
  exact hadd

/-- The report comes to the same text, whether its differences are computed at once or late. -/
theorem render_announced (entries : List (String × Probe)) :
    (entries.foldl (c.withAnnotations (some rootPrefix)).addEntry c.emptyTally.report).render =
      (entries.foldl (c.withAnnotations none).addEntry c.emptyTally.report).render := by
  obtain ⟨hlimits, hglyphs, hentries⟩ := c.foldl_addEntry_silent entries c.emptyTally.report
  have hempty : c.emptyTally.report.entries = ReportEntries.computed c.settings.glyphs [] := rfl
  obtain ⟨hlimits', hentries'⟩ := c.foldl_addEntry_announced rootPrefix entries hempty
  rw [DiffReport.render, DiffReport.render, DiffReport.layout_eq_ofBodies,
    DiffReport.layout_eq_ofBodies, hlimits, hlimits', hglyphs, hentries, hentries',
    ReportEntries.bodies_computed]
  rfl

/-! ## The two runs -/

theorem tally_announced (mode : Mode) (files : List FileOutcome) :
    (c.withAnnotations (some rootPrefix)).tally mode files =
      { (c.withAnnotations none).tally mode files with
        report := ((files.flatMap (c.reportedOf mode)).foldl
          (c.withAnnotations (some rootPrefix)).addEntry c.emptyTally.report)
        annotations := (files.flatMap (c.reportedOf mode)).flatMap
          (c.withAnnotations (some rootPrefix)).commandsFor } := by
  rw [tally_eq, tally_eq]
  rfl

/-- The outcome depends on whether the report is empty and on its text, and on nothing else of it. -/
theorem conclude_announced (outcomes : List FileOutcome) (t : Tally) {announcements : List String}
    (hempty : report.isEmpty = t.report.isEmpty) (hrender : report.render = t.report.render) :
    (c.withAnnotations (some rootPrefix)).conclude mode outcomes
        { t with report := report, annotations := announcements } =
      { (c.withAnnotations none).conclude mode outcomes t with annotations := announcements } := by
  simp only [conclude, hempty, hrender]
  cases t.misbehaving <;> rfl

theorem run_withAnnotations (mode : Mode) (files : List SourceFile) (rootPrefix : String) :
    (c.withAnnotations (some rootPrefix)).run mode files =
      { (c.withAnnotations none).run mode files with
        annotations := ((c.outcomes files).flatMap (c.reportedOf mode)).flatMap
          (c.withAnnotations (some rootPrefix)).commandsFor } := by
  have hsilent : ((c.withAnnotations none).tally mode (c.outcomes files)).report =
      ((c.outcomes files).flatMap (c.reportedOf mode)).foldl (c.withAnnotations none).addEntry
        c.emptyTally.report := by
    rw [tally_eq]
    rfl
  have hrun : (c.withAnnotations (some rootPrefix)).run mode files =
      (c.withAnnotations (some rootPrefix)).conclude mode (c.outcomes files)
        ((c.withAnnotations (some rootPrefix)).tally mode (c.outcomes files)) := rfl
  rw [hrun, tally_announced, conclude_announced]
  · rfl
  · rw [hsilent]
    exact ((c.withAnnotations _).foldl_addEntry_isEmpty _).trans
      ((c.withAnnotations none).foldl_addEntry_isEmpty _).symm
  · rw [hsilent, render_announced]

theorem annotations_silent (mode : Mode) (files : List SourceFile) :
    ((c.withAnnotations none).run mode files).annotations = [] := by
  have hnone : (c.withAnnotations none).commandsFor = fun _ => [] := rfl
  rw [run_annotations, hnone]
  simp

/-- Annotations do not disturb a run. With them the outcome is the same in all fields but that of the
annotations, which are empty otherwise: there it has, in the order of the results, the commands for
the difference between each reported file and its safe output. These are exactly the files that are
handed to the report, which holds the differences in the one case and their texts in the other. -/
theorem run_announced (c : Collector) (mode : Mode) (files : List SourceFile)
    (rootPrefix : String) :
    let silent := c.withAnnotations none
    let announced := c.withAnnotations (some rootPrefix)
    let run := silent.run mode files
    let reported := run.files.flatMap (c.reportedOf mode)
    let start := (DiffReport.empty c.settings.limits).withGlyphs c.settings.glyphs
    announced.run mode files =
      { run with
        annotations := reported.flatMap fun entry =>
          (FileDiff.compute entry.2.start entry.2.safeOutput).commands
            (Pathname.workspacePath rootPrefix entry.1) } ∧
    run.annotations = [] ∧
    reported.map (fun entry => ⟨entry.1, .probed entry.2⟩) = run.files.filter (c.reports mode) ∧
    (silent.tally mode run.files).report =
      reported.foldl (fun r entry => r.addDiff entry.1 entry.2.start entry.2.safeOutput) start ∧
    (announced.tally mode run.files).report =
      reported.foldl (fun r entry =>
        r.add entry.1 (renderDiff entry.2.start entry.2.safeOutput c.settings.glyphs)) start := by
  intro silent announced run reported start
  have hreported : reported = (c.outcomes files).flatMap (c.reportedOf mode) := by
    have hfiles : run.files = c.outcomes files := silent.run_files files
    rw [← hfiles]
  refine ⟨?_, c.annotations_silent mode files, c.reported_eq_filter mode run.files, ?_, ?_⟩
  · rw [hreported]
    exact c.run_withAnnotations mode files rootPrefix
  · rw [tally_eq]
    rfl
  · rw [tally_eq]
    rfl

end StableFormat.Collector
