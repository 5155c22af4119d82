import StableFormat.Diff.Remark
import StableFormat.Pathname.Basic
import StableFormat.Report.DiffReport
import StableFormat.Run.Exemptions
import StableFormat.Run.Outcome
import StableFormat.Step.Formatter

/-!
# Collecting the violations of a format

Every file is probed on its own. The results are taken in the order of the paths, and files with
equal paths in the order in which they came; what is reported and written is then decided file by
file. A collector only computes: it returns what to write and leaves the files alone.
-/

namespace StableFormat

/-- One format with its exemptions and settings. -/
structure Collector where
  formatter : Formatter
  settings : RunSettings := { }
  exemptions : Exemptions := { }

namespace Collector

/-- The formatter for a file, without the steps that do not run on it. -/
def formatterFor (c : Collector) (path : String) : Formatter :=
  if c.exemptions.hasStepSkips then
    { c.formatter with chain := c.formatter.chain.without (c.exemptions.skipsStep · path) }
  else c.formatter

/-- The net transform of a file, with the failures tolerated that its exemptions name. -/
def transformFor (c : Collector) (path : String) : String → Except StepError String :=
  (c.formatterFor path).computeTolerating fun e => c.exemptions.ignoresError e.step path

/-- Probes one file. -/
def processFile (c : Collector) (file : SourceFile) : FileResult :=
  if c.exemptions.skipsPath file.path then .skipped
  else
    match probe c.settings.maxIterations (c.transformFor file.path) file.content with
    | .ok p => .probed p
    | .error e => .failed e

/-- What became of every file, in the order of the paths. -/
def outcomes (c : Collector) (files : List SourceFile) : List FileOutcome :=
  (files.map fun file => FileOutcome.mk file.path (c.processFile file)).mergeSort fun a b =>
    a.path ≤ b.path

/-- The values of an orbit as files: the path, the format and a number from one on. -/
def diagnosticsFor (c : Collector) (path : String) (p : Probe) : List DiagnosticFile :=
  p.orbit.mapIdx fun i content =>
    ⟨path ++ "." ++ c.formatter.name ++ toString (i + 1), content⟩

/-- What has been decided about the files so far. -/
structure Tally where
  report : DiffReport
  misbehaving : List (String × Probe) := []
  writes : List (String × String) := []
  diagnostics : List DiagnosticFile := []
  annotations : List String := []
  failed : Bool := false

/-- Adds a violation to the report. With annotations the difference is computed at once, because the
commands need it anyway. -/
def addViolation (c : Collector) (path : String) (p : Probe) (t : Tally) : Tally :=
  match c.settings.annotations with
  | none => { t with report := t.report.addDiff path p.start p.safeOutput }
  | some rootPrefix =>
    let diff := FileDiff.compute p.start p.safeOutput
    { t with
      annotations := t.annotations ++ diff.commands (Pathname.workspacePath rootPrefix path)
      report := t.report.add path (diff.render c.settings.glyphs) }

/-- Decides about a file whose content is not clean. Without the padded-cell setting a file that
writing once does not settle is misbehaving; with it, such files are tolerated and their orbits
kept. -/
def settleViolation (c : Collector) (mode : Mode) (path : String) (p : Probe) (t : Tally) : Tally :=
  let padded := c.settings.paddedCell
  let t :=
    if padded && p.isMisbehaved then
      { t with diagnostics := t.diagnostics ++ c.diagnosticsFor path p }
    else t
  let unstable := !padded && p.classification.isUnstable
  match mode with
  | .apply =>
    let t := if p.hasViolation then { t with writes := t.writes ++ [(path, p.safeOutput)] } else t
    if unstable then { t with misbehaving := t.misbehaving ++ [(path, p)] } else t
  | .check =>
    if unstable then { t with misbehaving := t.misbehaving ++ [(path, p)] }
    else if p.hasViolation then
      let t := c.addViolation path p t
      if !padded || !p.isMisbehaved then { t with failed := true } else t
    else t

/-- Decides about a file. -/
def settle (c : Collector) (mode : Mode) (t : Tally) (file : FileOutcome) : Tally :=
  match file.result with
  | .skipped => t
  | .failed _ => { t with failed := true }
  | .probed p => if p.isClean then t else c.settleViolation mode file.path p t

/-- Decides about all files in order. -/
def tally (c : Collector) (mode : Mode) (files : List FileOutcome) : Tally :=
  files.foldl (c.settle mode)
    { report := (DiffReport.empty c.settings.limits).withGlyphs c.settings.glyphs }

/-- The message about misbehaving files, of which the first is named with its orbit. -/
def misbehavingMessage (c : Collector) (mode : Mode) (path : String) (p : Probe)
    (others : List String) : String :=
  "You have a misbehaving rule which can't make up its mind.\n" ++
  "This means that 'padcell check' will fail even after 'padcell apply' has run.\n\n" ++
  "The file in question is " ++ path ++ "\n" ++
  "Format '" ++ c.formatter.name ++ "' " ++ p.description ++ " (" ++ p.classification.describe ++
    ")\n" ++
  (if others.isEmpty then "" else "Also affected: " ++ ", ".intercalate others ++ "\n") ++
  (match mode with
    | .apply =>
      "Cycling files were written with the first member of the cycle; " ++
        "diverging files were left unchanged.\n"
    | .check => "") ++
  "You can find intermediate results for " ++ path ++ " in " ++ c.settings.diagnoseDir ++ "\n" ++
  "\n" ++
  "This is a bug in a formatting rule, not padcell itself, but padcell can work\n" ++
  "around it if you re-run with --padded-cell (or set `padded_cell = true` in\n" ++
  "padcell.toml).\n"

/-- The outcome of all decisions. -/
def conclude (c : Collector) (mode : Mode) (files : List FileOutcome) (t : Tally) : RunOutcome :=
  let base : RunOutcome :=
    { mode := mode
      format := c.formatter.name
      files := files
      report := if t.report.isEmpty then none else some t.report.render
      misbehaving := none
      writes := t.writes
      diagnostics := t.diagnostics
      annotations := t.annotations
      failed := t.failed }
  match t.misbehaving with
  | [] => base
  | (path, p) :: others =>
    { base with
      failed := true
      diagnostics := c.diagnosticsFor path p
      misbehaving := some (c.misbehavingMessage mode path p (others.map (·.1))) }

/-- Probes every file and decides what to report and to write. -/
def run (c : Collector) (mode : Mode) (files : List SourceFile) : RunOutcome :=
  let outcomes := c.outcomes files
  c.conclude mode outcomes (c.tally mode outcomes)

end Collector

end StableFormat
