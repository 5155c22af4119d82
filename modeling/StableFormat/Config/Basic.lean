import StableFormat.Orbit.Probe
import StableFormat.Report.Layout
import StableFormat.Run.Outcome
import StableFormat.Step.Spec
import StableFormat.Text.LineEnding

/-!
# Configurations

A configuration names formats and says how they are run. Several configurations can be laid on top
of each other: a setting that a later one gives replaces the earlier one, and a format replaces the
one of the same name as a whole.
-/

namespace StableFormat

/-- A step that does not run on the paths that a glob covers. -/
structure SkipRule where
  step : String
  path : String
  deriving DecidableEq, Repr, Inhabited

/-- A format as configured; its globs and patterns have not been read yet. -/
structure FormatConfig where
  name : String
  included : List String := []
  excluded : List String := []
  steps : List StepSpec := []
  skipSteps : List String := []
  skipPaths : List String := []
  skip : List SkipRule := []
  ignoreErrorSteps : List String := []
  ignoreErrorPaths : List String := []
  /-- Takes the place of the line ending of the configuration. -/
  lineEnding : Option LineEnding := none
  deriving DecidableEq, Repr, Inhabited

/-- A whole configuration. -/
structure Config where
  version : Nat
  maxIterations : Nat
  maxMessageLines : Nat
  maxFilesToList : Nat
  paddedCell : Bool
  lineEnding : LineEnding
  diagnoseDir : String
  /-- The formats in the order in which they are run. -/
  formats : List FormatConfig
  deriving DecidableEq, Repr

/-- The settings that one file gives, and its formats. -/
structure PartialConfig where
  version : Option Nat := none
  maxIterations : Option Nat := none
  maxMessageLines : Option Nat := none
  maxFilesToList : Option Nat := none
  paddedCell : Option Bool := none
  lineEnding : Option LineEnding := none
  diagnoseDir : Option String := none
  formats : List FormatConfig := []
  deriving DecidableEq, Repr, Inhabited

namespace Config

/-- The only version of configurations. -/
def knownVersion : Nat := 1

/-- The configuration without any file. -/
def default : Config where
  version := knownVersion
  maxIterations := defaultMaxIterations
  maxMessageLines := ({ } : ReportLimits).maxMessageLines
  maxFilesToList := ({ } : ReportLimits).maxFilesToList
  paddedCell := false
  lineEnding := .unix
  diagnoseDir := defaultDiagnoseDir
  formats := []

instance : Inhabited Config := ⟨default⟩

/-- Puts a format in the place of the one with its name, or else at the end. -/
def mergeFormat (formats : List FormatConfig) (format : FormatConfig) : List FormatConfig :=
  match formats with
  | [] => [format]
  | first :: rest =>
    if first.name = format.name then format :: rest else first :: mergeFormat rest format

/-- Lays the settings of a file on top of a configuration. -/
def applyPartial (c : Config) (p : PartialConfig) : Config where
  version := p.version.getD c.version
  maxIterations := p.maxIterations.getD c.maxIterations
  maxMessageLines := p.maxMessageLines.getD c.maxMessageLines
  maxFilesToList := p.maxFilesToList.getD c.maxFilesToList
  paddedCell := p.paddedCell.getD c.paddedCell
  lineEnding := p.lineEnding.getD c.lineEnding
  diagnoseDir := p.diagnoseDir.getD c.diagnoseDir
  formats := p.formats.foldl mergeFormat c.formats

end Config

end StableFormat
