import StableFormat.Config.Error
import StableFormat.Run.Exemptions
import StableFormat.Run.Selection
import StableFormat.Step.Formatter

/-!
# Formats ready to run

Reading the patterns and globs of a configured format gives its formatter, its exemptions and the
selection of its files. Each of them can fail on its own; a configuration is valid if none does, so
that no format of a valid configuration can fail when its turn comes.
-/

namespace StableFormat

/-- A format whose patterns and globs have been read. -/
structure ReadyFormat where
  formatter : Formatter
  exemptions : Exemptions
  selection : Selection

namespace FormatConfig

/-- The step of a description. -/
def buildStep (f : FormatConfig) (spec : StepSpec) : Except ConfigError Step :=
  match spec.build with
  | .ok step => .ok step
  | .error e => .error (.invalidPattern f.name spec.name e)

/-- The formatter, with a line ending for the case that the format does not have its own. -/
def build (f : FormatConfig) (defaultLineEnding : LineEnding) : Except ConfigError Formatter := do
  let chain ← f.steps.mapM f.buildStep
  return ⟨f.name, chain, f.lineEnding.getD defaultLineEnding⟩

/-- Reads a glob of the format. -/
def readGlob (f : FormatConfig) (pattern : String) : Except ConfigError Glob :=
  match Glob.read pattern with
  | .ok glob => .ok glob
  | .error e => .error (.invalidGlob f.name pattern e)

/-- Reads globs of the format; the first fault counts. -/
def readGlobs (f : FormatConfig) (patterns : List String) : Except ConfigError (List Glob) :=
  patterns.mapM f.readGlob

/-- The exemptions. -/
def exemptions (f : FormatConfig) : Except ConfigError Exemptions := do
  let skipPaths ← f.readGlobs f.skipPaths
  let skipStepPaths ← f.skip.mapM fun rule => do return (rule.step, ← f.readGlob rule.path)
  let ignoreErrorPaths ← f.readGlobs f.ignoreErrorPaths
  return ⟨f.skipSteps, skipPaths, skipStepPaths, f.ignoreErrorSteps, ignoreErrorPaths⟩

/-- The globs of the files that the format applies to. -/
def includedGlobs (f : FormatConfig) : Except ConfigError (List Glob) :=
  f.readGlobs f.included

/-- The globs of the files that the format does not apply to. -/
def excludedGlobs (f : FormatConfig) : Except ConfigError (List Glob) :=
  f.readGlobs f.excluded

/-- The selection of the files. -/
def selection (f : FormatConfig) : Except ConfigError Selection := do
  return ⟨← f.includedGlobs, ← f.excludedGlobs⟩

/-- Reads everything in the format; the first fault counts. -/
def prepare (f : FormatConfig) (defaultLineEnding : LineEnding) :
    Except ConfigError ReadyFormat := do
  return ⟨← f.build defaultLineEnding, ← f.exemptions, ← f.selection⟩

/-- The format has steps, and everything in it can be read. -/
def validate (f : FormatConfig) : Except ConfigError Unit :=
  if f.steps.isEmpty then .error (.emptyFormat f.name) else (f.prepare .unix).map fun _ => ()

end FormatConfig

namespace Config

/-- The first format of a name. -/
def format (c : Config) (name : String) : Except ConfigError FormatConfig :=
  match c.formats.find? (·.name = name) with
  | some f => .ok f
  | none => .error (.unknownFormat name)

/-- The formats that are run: those named, in that order, or all. -/
def chosenFormats (c : Config) (names : List String) : Except ConfigError (List FormatConfig) :=
  if names.isEmpty then .ok c.formats else names.mapM c.format

/-- The settings of a run. -/
def runSettings (c : Config) (glyphs : Glyphs) (annotations : Option String)
    (diagnoseDir : String) : RunSettings where
  maxIterations := c.maxIterations
  paddedCell := c.paddedCell
  limits := ⟨c.maxMessageLines, c.maxFilesToList⟩
  glyphs := glyphs
  annotations := annotations
  diagnoseDir := diagnoseDir

/-- A setting is not too small. -/
def atLeast (key : String) (minimum value : Nat) : Except ConfigError Unit :=
  if value < minimum then .error (.belowMinimum key minimum value) else .ok ()

/-- The formats have different names, also from those in `seen`, and each can be used. -/
def validateFormats (seen : List String) : List FormatConfig → Except ConfigError Unit
  | [] => .ok ()
  | f :: rest =>
    if seen.contains f.name then .error (.duplicateFormat f.name)
    else do
      f.validate
      validateFormats (f.name :: seen) rest

/-- The version is the known one. -/
def validateVersion (version : Nat) : Except ConfigError Unit :=
  if version = knownVersion then .ok () else .error (.unsupportedVersion version)

/-- The configuration can be used; the first fault counts. -/
def validate (c : Config) : Except ConfigError Unit := do
  validateVersion c.version
  atLeast "max_iterations" minIterations c.maxIterations
  atLeast "max_message_lines" 1 c.maxMessageLines
  atLeast "max_files_to_list" 1 c.maxFilesToList
  validateFormats [] c.formats

end Config

end StableFormat
