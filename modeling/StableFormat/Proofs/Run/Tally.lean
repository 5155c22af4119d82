import Mathlib.Data.List.Induction
import StableFormat.Proofs.Report.Rendering
import StableFormat.Run.Collector

/-!
# Proofs: what one file adds to a run

A run decides about its files one after the other. What is decided about a file depends on nothing
but that file, so the tally of a list of files is put together from what each of them adds.
-/

namespace StableFormat

/-- The probe of a file whose content is not clean. -/
def FileOutcome.violation? (file : FileOutcome) : Option Probe :=
  match file.result with
  | .probed p => if p.isClean then none else some p
  | _ => none

/-- The formatter failed on the file. -/
def FileOutcome.hasFailed (file : FileOutcome) : Bool :=
  match file.result with
  | .failed _ => true
  | _ => false

/-- An entry after all the others comes last. -/
theorem ReportEntries.paths_insert_last {path : String} {entry : ReportEntry}
    {entries : ReportEntries} (h : ∀ p ∈ entries.paths, p < path) :
    (insert path entry entries).paths = entries.paths ++ [path] := by
  induction entries with
  | nil => rfl
  | cons head rest ih =>
    obtain ⟨q, e⟩ := head
    simp only [paths, List.map_cons, List.mem_cons, forall_eq_or_imp] at h ih
    obtain ⟨hq, hrest⟩ := h
    have hnlt : ¬ path < q := String.lt_asymm hq
    have hne : path ≠ q := fun heq => String.lt_irrefl q (heq ▸ hq)
    simp only [insert, if_neg hnlt, if_neg hne, paths, List.map_cons, List.cons_append]
    rw [ih hrest]

namespace Collector

variable (c : Collector) {mode : Mode} {file : FileOutcome} {files : List FileOutcome}

/-- The violation is one that writing once does not settle, and that is not tolerated. -/
def isMisbehaving (p : Probe) : Bool :=
  !c.settings.paddedCell && p.classification.isUnstable

/-- What a file adds to the misbehaving ones. -/
def misbehavingOf (file : FileOutcome) : List (String × Probe) :=
  match file.violation? with
  | some p => if c.isMisbehaving p then [(file.path, p)] else []
  | none => []

/-- What a file adds to the writes. -/
def writesOf (mode : Mode) (file : FileOutcome) : List (String × String) :=
  match mode, file.violation? with
  | .apply, some p => if p.hasViolation then [(file.path, p.safeOutput)] else []
  | _, _ => []

/-- What a file adds to the entries of the report. -/
def reportedOf (mode : Mode) (file : FileOutcome) : List (String × Probe) :=
  match mode, file.violation? with
  | .check, some p => if !c.isMisbehaving p && p.hasViolation then [(file.path, p)] else []
  | _, _ => []

/-- What a file adds to the orbits that are kept because they are tolerated. -/
def toleratedOrbitOf (file : FileOutcome) : List DiagnosticFile :=
  match file.violation? with
  | some p =>
    if c.settings.paddedCell && p.isMisbehaved then c.diagnosticsFor file.path p else []
  | none => []

/-- The commands that announce an entry of the report. -/
def commandsFor (entry : String × Probe) : List String :=
  match c.settings.annotations with
  | none => []
  | some rootPrefix =>
    (FileDiff.compute entry.2.start entry.2.safeOutput).commands
      (Pathname.workspacePath rootPrefix entry.1)

/-- The report with one more entry. -/
def addEntry (report : DiffReport) (entry : String × Probe) : DiffReport :=
  match c.settings.annotations with
  | none => report.addDiff entry.1 entry.2.start entry.2.safeOutput
  | some _ =>
    report.add entry.1
      ((FileDiff.compute entry.2.start entry.2.safeOutput).render c.settings.glyphs)

/-- The file makes the run fail, apart from the misbehaving ones. -/
def failsRun (mode : Mode) (file : FileOutcome) : Bool :=
  file.hasFailed ||
    (c.reportedOf mode file).any fun entry =>
      !c.settings.paddedCell || !entry.2.isMisbehaved

theorem addViolation_eq (path : String) (p : Probe) (t : Tally) :
    c.addViolation path p t =
      { t with
        report := c.addEntry t.report (path, p)
        annotations := t.annotations ++ c.commandsFor (path, p) } := by
  cases h : c.settings.annotations <;> simp [addViolation, addEntry, commandsFor, h]

/-- What a file adds to a tally, all at once. -/
theorem settle_eq (t : Tally) (file : FileOutcome) :
    c.settle mode t file =
      { report := (c.reportedOf mode file).foldl c.addEntry t.report
        misbehaving := t.misbehaving ++ c.misbehavingOf file
        writes := t.writes ++ writesOf mode file
        diagnostics := t.diagnostics ++ c.toleratedOrbitOf file
        annotations := t.annotations ++ (c.reportedOf mode file).flatMap c.commandsFor
        failed := t.failed || c.failsRun mode file } := by
  obtain ⟨path, result⟩ := file
  cases result with
  | skipped =>
    cases mode <;>
      simp [settle, reportedOf, misbehavingOf, writesOf, toleratedOrbitOf, failsRun,
        FileOutcome.violation?, FileOutcome.hasFailed]
  | failed e =>
    cases mode <;>
      simp [settle, reportedOf, misbehavingOf, writesOf, toleratedOrbitOf, failsRun,
        FileOutcome.violation?, FileOutcome.hasFailed]
  | probed p =>
    cases hclean : p.isClean with
    | true =>
      cases mode <;>
        simp [settle, reportedOf, misbehavingOf, writesOf, toleratedOrbitOf, failsRun,
          FileOutcome.violation?, FileOutcome.hasFailed, hclean]
    | false =>
      cases mode <;> cases hpadded : c.settings.paddedCell <;>
        cases hm : p.isMisbehaved <;> cases hu : p.classification.isUnstable <;>
        cases hv : p.hasViolation <;>
        simp [settle, settleViolation, addViolation_eq, reportedOf, misbehavingOf, writesOf,
          toleratedOrbitOf, failsRun, isMisbehaving, FileOutcome.violation?,
          FileOutcome.hasFailed, hclean, hpadded, hm, hu, hv]

/-- The tally that a run starts from. -/
def emptyTally : Tally :=
  { report := (DiffReport.empty c.settings.limits).withGlyphs c.settings.glyphs }

theorem foldl_settle (t : Tally) (files : List FileOutcome) :
    files.foldl (c.settle mode) t =
      { report := (files.flatMap (c.reportedOf mode)).foldl c.addEntry t.report
        misbehaving := t.misbehaving ++ files.flatMap c.misbehavingOf
        writes := t.writes ++ files.flatMap (writesOf mode)
        diagnostics := t.diagnostics ++ files.flatMap c.toleratedOrbitOf
        annotations := t.annotations ++ (files.flatMap (c.reportedOf mode)).flatMap c.commandsFor
        failed := t.failed || files.any (c.failsRun mode) } := by
  induction files generalizing t with
  | nil => simp
  | cons file rest ih =>
    rw [List.foldl_cons, ih, settle_eq]
    simp [List.flatMap_append, Bool.or_assoc]

/-- The tally of a run, put together from its files. -/
theorem tally_eq (mode : Mode) (files : List FileOutcome) :
    c.tally mode files =
      { report := (files.flatMap (c.reportedOf mode)).foldl c.addEntry c.emptyTally.report
        misbehaving := files.flatMap c.misbehavingOf
        writes := files.flatMap (writesOf mode)
        diagnostics := files.flatMap c.toleratedOrbitOf
        annotations := (files.flatMap (c.reportedOf mode)).flatMap c.commandsFor
        failed := files.any (c.failsRun mode) } := by
  exact c.foldl_settle c.emptyTally files

/-! ## The violations of several files -/

/-- What is kept of the violation of a file: its path with a value. -/
def violationsOf {α : Type} (keep : Probe → Bool) (value : Probe → α) (file : FileOutcome) :
    List (String × α) :=
  match file.violation? with
  | some p => if keep p then [(file.path, value p)] else []
  | none => []

theorem mem_violations {α : Type} {keep : Probe → Bool} {value : Probe → α}
    {outcomes : List FileOutcome} {path : String} {v : α} :
    (path, v) ∈ outcomes.flatMap (violationsOf keep value) ↔
      ∃ p, ⟨path, .probed p⟩ ∈ outcomes ∧ p.isClean = false ∧ keep p = true ∧ v = value p := by
  rw [List.mem_flatMap]
  constructor
  · rintro ⟨⟨path', result⟩, hfile, hmem⟩
    cases result with
    | skipped => cases hmem
    | failed e => cases hmem
    | probed p =>
      cases hclean : p.isClean with
      | true => simp [violationsOf, FileOutcome.violation?, hclean] at hmem
      | false =>
        simp only [violationsOf, FileOutcome.violation?, hclean, Bool.false_eq_true,
          if_false] at hmem
        split at hmem
        · next hkeep =>
          obtain ⟨rfl, rfl⟩ := Prod.mk.inj (List.mem_singleton.1 hmem)
          exact ⟨p, hfile, hclean, hkeep, rfl⟩
        · cases hmem
  · rintro ⟨p, hfile, hclean, hkeep, rfl⟩
    refine ⟨_, hfile, ?_⟩
    simp [violationsOf, FileOutcome.violation?, hclean, hkeep]

theorem violations_paths_sublist {α : Type} (keep : Probe → Bool) (value : Probe → α)
    (outcomes : List FileOutcome) :
    ((outcomes.flatMap (violationsOf keep value)).map (·.1)).Sublist
      (outcomes.map (·.path)) := by
  induction outcomes with
  | nil => exact .slnil
  | cons file rest ih =>
    rw [List.flatMap_cons, List.map_append, List.map_cons]
    have hfile : (violationsOf keep value file).map (·.1) = [] ∨
        (violationsOf keep value file).map (·.1) = [file.path] := by
      rw [violationsOf]
      split
      · split <;> simp
      · exact Or.inl rfl
    rcases hfile with h | h
    · rw [h]
      exact ih.cons _
    · rw [h]
      exact ih.cons_cons _

theorem writesOf_apply :
    writesOf .apply = violationsOf Probe.hasViolation Probe.safeOutput := by
  funext file
  simp only [writesOf, violationsOf]
  cases file.violation? <;> rfl

theorem reportedOf_check :
    c.reportedOf .check =
      violationsOf (fun p => !c.isMisbehaving p && p.hasViolation) id := by
  funext file
  simp only [reportedOf, violationsOf]
  cases file.violation? <;> rfl

theorem misbehavingOf_eq : c.misbehavingOf = violationsOf c.isMisbehaving id := by
  funext file
  simp only [misbehavingOf, violationsOf]
  cases file.violation? <;> rfl

/-! ## The outcome of a run -/

theorem addEntry_isEmpty (report : DiffReport) (entry : String × Probe) :
    (c.addEntry report entry).isEmpty = false := by
  have hinsert (e : ReportEntry) : (report.insert entry.1 e).isEmpty = false := by
    have hmem : entry.1 ∈ (report.insert entry.1 e).paths :=
      ReportEntries.mem_paths_insert.2 (Or.inl rfl)
    cases h : (report.insert entry.1 e).isEmpty with
    | false => rfl
    | true =>
      rw [DiffReport.isEmpty, List.isEmpty_iff] at h
      rw [DiffReport.paths, h] at hmem
      cases hmem
  cases h : c.settings.annotations with
  | none => simp [addEntry, h, DiffReport.addDiff, hinsert]
  | some rootPrefix => simp [addEntry, h, DiffReport.add, hinsert]

/-- A report is empty as long as nothing has been added. -/
theorem foldl_addEntry_isEmpty (entries : List (String × Probe)) :
    (entries.foldl c.addEntry c.emptyTally.report).isEmpty = entries.isEmpty := by
  rcases List.eq_nil_or_concat entries with rfl | ⟨before, last, rfl⟩
  · rfl
  · rw [List.concat_eq_append, List.foldl_append, List.foldl_cons, List.foldl_nil, addEntry_isEmpty]
    simp

theorem addEntry_paths {report : DiffReport} {entry : String × Probe}
    (h : ∀ q ∈ report.paths, q < entry.1) :
    (c.addEntry report entry).paths = report.paths ++ [entry.1] := by
  rw [addEntry]
  split
  · exact ReportEntries.paths_insert_last h
  · exact ReportEntries.paths_insert_last h

theorem foldl_addEntry_limits (entries : List (String × Probe)) (report : DiffReport) :
    (entries.foldl c.addEntry report).limits = report.limits := by
  induction entries generalizing report with
  | nil => rfl
  | cons entry rest ih =>
    rw [List.foldl_cons, ih, addEntry]
    split <;> rfl

/-- Entries that come in the order of their paths stay in this order. -/
theorem foldl_addEntry_paths {entries : List (String × Probe)}
    (h : (entries.map (·.1)).Pairwise (· < ·)) :
    (entries.foldl c.addEntry c.emptyTally.report).paths = entries.map (·.1) := by
  induction entries using List.reverseRecOn with
  | nil => rfl
  | append_singleton before last ih =>
    rw [List.map_append, List.pairwise_append] at h
    obtain ⟨hbefore, -, hlast⟩ := h
    have hpaths := ih hbefore
    rw [List.foldl_append, List.foldl_cons, List.foldl_nil, c.addEntry_paths, hpaths,
      List.map_append]
    · rfl
    · intro q hq
      rw [hpaths] at hq
      exact hlast q hq last.1 (List.mem_singleton.2 rfl)

variable (sources : List SourceFile)

theorem run_files : (c.run mode sources).files = c.outcomes sources := by
  rw [run, conclude]
  split <;> rfl

theorem run_writes :
    (c.run mode sources).writes = (c.outcomes sources).flatMap (writesOf mode) := by
  rw [run, conclude, tally_eq]
  split <;> rfl

/-- A run fails if some file makes it fail or some file is misbehaving. -/
theorem run_failed :
    (c.run mode sources).failed =
      ((c.outcomes sources).any (c.failsRun mode) ||
        !((c.outcomes sources).flatMap c.misbehavingOf).isEmpty) := by
  rw [run, conclude, tally_eq]
  split
  · next h => simp only at h; simp [h]
  · next h => simp only at h; simp [h]

theorem run_report :
    (c.run mode sources).report =
      if (c.outcomes sources).flatMap (c.reportedOf mode) = [] then none
      else some (((c.outcomes sources).flatMap (c.reportedOf mode)).foldl c.addEntry
        c.emptyTally.report).render := by
  have hempty := c.foldl_addEntry_isEmpty ((c.outcomes sources).flatMap (c.reportedOf mode))
  have hreport : (c.run mode sources).report =
      if (c.tally mode (c.outcomes sources)).report.isEmpty then none
      else some (c.tally mode (c.outcomes sources)).report.render := by
    rw [run, conclude]
    split <;> rfl
  rw [hreport, tally_eq]
  simp only [hempty, List.isEmpty_iff]

theorem run_report_eq_none :
    (c.run mode sources).report = none ↔
      (c.outcomes sources).flatMap (c.reportedOf mode) = [] := by
  rw [run_report]
  split
  · next h => simp [h]
  · next h => simp [h]

/-- A run that has something to report can print it exactly if there is room for as many lines of 64
bytes as its limits allow; otherwise the program ends without a report. Every other run can print what
it has, which is nothing. -/
theorem run_reportText :
    (∃ text, (c.run mode sources).reportText = .ok text) ↔
      (c.outcomes sources).flatMap (c.reportedOf mode) = [] ∨
        c.settings.limits.maxMessageLines * 64 < 2 ^ 63 := by
  have hlimits := c.foldl_addEntry_limits ((c.outcomes sources).flatMap (c.reportedOf mode))
    c.emptyTally.report
  rw [RunOutcome.reportText, run_report]
  by_cases hnone : (c.outcomes sources).flatMap (c.reportedOf mode) = []
  · simp [hnone]
  · simp only [hnone, if_false, false_or, map_eq_ok, exists_comm, exists_eq', exists_and_left,
      and_true, DiffReport.exists_render_iff, hlimits]
    rfl

end Collector

end StableFormat
