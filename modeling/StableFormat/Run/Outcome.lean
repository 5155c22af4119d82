import StableFormat.Orbit.Probe
import StableFormat.Report.Layout
import StableFormat.Step.Chain
import StableFormat.Text.Glyphs

/-!
# Runs and what they produce

A run takes the files of one format, and either checks them or says what to write. Here are its
settings and the parts of its outcome.
-/

namespace StableFormat

/-- What a run is for. -/
inductive Mode where
  /-- Report violations and write nothing. -/
  | check
  /-- Say what to write to settle every violation. -/
  | apply
  deriving DecidableEq, Repr, Inhabited

/-- A file that has been read. -/
structure SourceFile where
  /-- The path below the root, with `/` between its parts. -/
  path : String
  content : String
  deriving DecidableEq, Repr, Inhabited

/-- Where the values of misbehaving orbits go, unless set otherwise. -/
def defaultDiagnoseDir : String := "build/padcell-diagnose"

/-- The settings of a run. -/
structure RunSettings where
  maxIterations : Nat := defaultMaxIterations
  /-- Misbehaving formats are tolerated, and their orbits kept. -/
  paddedCell : Bool := false
  limits : ReportLimits := { }
  glyphs : Glyphs := .fancy
  /-- The prefix of the root in the workspace, if violations are to be announced there. -/
  annotations : Option String := none
  /-- Where orbits are kept, as shown in messages. -/
  diagnoseDir : String := defaultDiagnoseDir
  deriving DecidableEq, Repr

/-- What became of one file. -/
inductive FileResult where
  | skipped
  | probed (probe : Probe)
  | failed (error : StepError)
  deriving DecidableEq, Repr, Inhabited

/-- A file, and what became of it. -/
structure FileOutcome where
  path : String
  result : FileResult
  deriving DecidableEq, Repr, Inhabited

/-- A value of an orbit, to be kept in a file of its own. -/
structure DiagnosticFile where
  name : String
  content : String
  deriving DecidableEq, Repr, Inhabited

/-- All that a run produced, in the order of the paths. If a number left its range, be it in a step or
in the text of the report, the program ends with the run, and nothing of the outcome is used. -/
structure RunOutcome where
  mode : Mode
  format : String
  files : List FileOutcome
  /-- The text of the report of a check, if there is anything to report. -/
  report : Option (Checked String)
  /-- The message about files that writing once does not settle. -/
  misbehaving : Option String
  /-- Paths and what to write to them. -/
  writes : List (String × String)
  diagnostics : List DiagnosticFile
  annotations : List String
  failed : Bool
  deriving Repr

namespace RunOutcome

/-- The failures of a run, with their paths. -/
def errors (run : RunOutcome) : List (String × StepError) :=
  run.files.filterMap fun file =>
    match file.result with
    | .failed e => some (file.path, e)
    | _ => none

/-- No number has left its range on any file. -/
def checkFiles (run : RunOutcome) : Checked Unit :=
  match run.errors.findSome? (·.2.stray?) with
  | none => .ok ()
  | some place => .error place

/-- What there is to print of the report. -/
def reportText (run : RunOutcome) : Checked (Option String) :=
  match run.report with
  | none => .ok none
  | some text => some <$> text

end RunOutcome

end StableFormat
