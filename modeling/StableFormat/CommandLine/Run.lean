import StableFormat.CommandLine.Args
import StableFormat.CommandLine.Usage
import StableFormat.Config.Discovery
import StableFormat.Config.Format
import StableFormat.FileTree.Collect
import StableFormat.FileTree.Store
import StableFormat.Run.Collector

/-!
# Running a command line

A command line is run on a file tree and gives a changed tree, two texts to print and an exit
status: `0` if all is well, `1` if a format found something, `2` if the command or the configuration
cannot be used, `101` if a number left its range in a run. Everything that leads to the status `2` is
checked before the first format runs.
-/

namespace StableFormat.CommandLine

/-- Why a command is not carried out. -/
inductive RunError where
  | rootMissing (root : String) (cause : FileError)
  | configNotLoaded (path : String) (cause : Config.LoadError)
  | unusableConfig (cause : ConfigError)
  | noFormats
  deriving DecidableEq, Repr, Inhabited

/-- The text of an error and of all its causes. -/
def RunError.message : RunError → String
  | rootMissing root cause => "root " ++ root ++ " does not exist: " ++ cause.message
  | configNotLoaded path cause => "failed to load " ++ path ++ ": " ++ cause.message
  | unusableConfig cause =>
    match cause with
    | .invalidGlob _ _ e => cause.message ++ ": " ++ e.message
    | .invalidPattern _ _ e => cause.message ++ ": " ++ e.message
    | _ => cause.message
  | noFormats => "no formats configured; add a [[format]] table to padcell.toml"

/-- What has happened so far. -/
structure Session where
  files : FileTree
  stdout : String := ""
  stderr : String := ""
  passed : Bool := true

/-- What a command comes to. -/
structure Result where
  status : Nat
  stdout : String
  stderr : String
  files : FileTree

/-- The end of a session in which every format has run. -/
def Session.finish (s : Session) : Result :=
  ⟨if s.passed then 0 else 1, s.stdout, s.stderr, s.files⟩

/-- The end of a session in which a number left its range. -/
def Session.halt (s : Session) (place : Stray) : Result :=
  ⟨101, s.stdout, s.stderr ++ place.message ++ "\n", s.files⟩

/-- The end of a session that cannot go on. -/
def Session.abort (s : Session) (e : RunError) : Result :=
  ⟨2, s.stdout, s.stderr ++ "Error: " ++ e.message ++ "\n", s.files⟩

/-- A command whose arguments and configuration have been checked. -/
structure Job where
  mode : Mode
  silent : Bool
  env : Environment
  root : Pathname
  config : Config
  /-- The files to work on. -/
  paths : List Pathname

namespace Job

/-- The directory that the orbits of all formats are kept in. -/
def diagnoseRoot (root : Pathname) (config : Config) : Pathname :=
  root.join ⟨config.diagnoseDir⟩

/-- The files of a format, as far as they can be read, and whether all could be. -/
def readSources (j : Job) (files : FileTree) (selection : Selection) : List SourceFile × Bool :=
  let selected := j.paths.filter fun path =>
    (Pathname.relativeTo? j.root path).any selection.selects
  let read := selected.map (files.readSource j.root)
  (read.filterMap Except.toOption, read.all Except.isOk)

/-- The collector of a format, and the directory that its orbits are kept in. -/
def collectorFor (j : Job) (files : FileTree) (format : ReadyFormat) : Collector × Pathname :=
  let directory := (diagnoseRoot j.root j.config).child format.formatter.name
  let workspace :=
    match j.mode with
    | .check => j.env.workspace?
    | .apply => none
  let annotations := workspace.map (j.env.workspacePrefix files j.root)
  (⟨format.formatter, j.config.runSettings j.env.glyphs annotations directory.text,
    format.exemptions⟩, directory)

/-- Writes what a run settled, and tells whether all could be written. -/
def writeAll (j : Job) : FileTree → List (String × String) → FileTree × Bool
  | files, [] => (files, true)
  | files, (relative, content) :: rest =>
    let (files, written) := files.replaceFile (j.root.child relative) content
    let (files, restWritten) := j.writeAll files rest
    (files, written.isOk && restWritten)

/-- Keeps the orbits of a run in place of those of an earlier one, and tells whether that worked. A
run that tolerates misbehaving formats always removes the earlier ones. -/
def keepOrbits (j : Job) (files : FileTree) (directory : Pathname)
    (diagnostics : List DiagnosticFile) : FileTree × Bool :=
  if j.config.paddedCell || !diagnostics.isEmpty then
    match files.clearDirectory directory with
    | (files, .error _) => (files, false)
    | (files, .ok ()) =>
      let (files, kept) := files.writeDiagnostics directory diagnostics
      (files, kept.isOk)
  else (files, true)

/-- Carries out what a run of a format came to, and prints its report. -/
def carryOut (j : Job) (s : Session) (directory : Pathname) (allRead : Bool) (outcome : RunOutcome)
    (report : Option String) : Session :=
  let (files, allWritten) := j.writeAll s.files outcome.writes
  let (files, kept) := j.keepOrbits files directory outcome.diagnostics
  let commands := String.join (outcome.annotations.map (· ++ "\n"))
  let shown (text : Option String) : String := if j.silent then "" else text.getD ""
  { files := files
    stdout := s.stdout ++ commands ++ shown report
    stderr := s.stderr ++ shown outcome.misbehaving
    passed := s.passed && allRead && allWritten && kept && !outcome.failed }

/-- Runs a format. A number can leave its range while the files are probed and while the report is
written, and then nothing is carried out. -/
def runFormat (j : Job) (s : Session) (format : ReadyFormat) : Checked Session := do
  let (sources, allRead) := j.readSources s.files format.selection
  let (collector, directory) := j.collectorFor s.files format
  let outcome := collector.run j.mode sources
  outcome.checkFiles
  let report ← outcome.reportText
  return j.carryOut s directory allRead outcome report

/-- Runs formats one after the other. -/
def runFormats (j : Job) (s : Session) : List FormatConfig → Result
  | [] => s.finish
  | f :: rest =>
    match f.prepare j.config.lineEnding with
    | .error e => s.abort (.unusableConfig e)
    | .ok format =>
      match j.runFormat s format with
      | .ok s => j.runFormats s rest
      | .error place => s.halt place

end Job

/-- Lays options on top of a configuration. -/
def Options.override (o : Options) (c : Config) : Config :=
  { c with
    paddedCell := o.paddedCell || c.paddedCell
    maxIterations := o.maxIterations.getD c.maxIterations
    maxMessageLines := o.maxMessageLines.getD c.maxMessageLines
    maxFilesToList := o.maxFilesToList.getD c.maxFilesToList
    diagnoseDir := o.diagnoseDir.getD c.diagnoseDir }

/-- The configuration of a command: that of the file it names, or the one that is found. -/
def Options.configuration (o : Options) (env : Environment) (files : FileTree) (root : Pathname) :
    Except RunError Config :=
  match o.config with
  | none => .ok (o.override (Config.discovered env files root))
  | some path =>
    match Config.load env files ⟨path⟩ with
    | .ok c => .ok (o.override c)
    | .error e => .error (.configNotLoaded path e)

/-- The place that a command works at: the root it names, or the working directory. -/
def Options.findRoot (o : Options) (env : Environment) (files : FileTree) :
    Except RunError Pathname :=
  let root : Pathname := (o.root.map Pathname.mk).getD env.workingDirectory
  match files.canonical (env.absolute root) with
  | .ok root => .ok root
  | .error e => .error (.rootMissing root.text e)

/-- A configuration that has been checked, and the formats to run. -/
def checkFormats (config : Config) (names : List String) : Except RunError (List FormatConfig) :=
  match config.validate with
  | .error e => .error (.unusableConfig e)
  | .ok () =>
    if config.formats.isEmpty then .error .noFormats
    else
      match config.chosenFormats names with
      | .ok formats => .ok formats
      | .error e => .error (.unusableConfig e)

/-- Checks a command and finds its files. -/
def Args.prepare (args : Args) (env : Environment) (files : FileTree) :
    Except RunError (Job × List FormatConfig) := do
  let o := args.options
  let root ← o.findRoot env files
  let config ← o.configuration env files root
  let formats ← checkFormats config o.formats
  let excluded := o.exclusions.filterMap fun pattern => (Glob.read pattern).toOption
  let paths := (files.collect root (o.paths.map Pathname.mk) excluded).filter fun path =>
    !path.isBelow (Job.diagnoseRoot root config)
  return (⟨args.mode, o.silent, env, root, config, paths⟩, formats)

/-- Carries out a command. -/
def Args.run (args : Args) (env : Environment) (files : FileTree) : Result :=
  match args.prepare env files with
  | .ok (job, formats) => job.runFormats { files := files } formats
  | .error e => Session.abort { files := files } e

/-- Runs a command line: the arguments behind the name of the program. -/
def run (env : Environment) (files : FileTree) (arguments : List String) : Result :=
  match Args.read arguments with
  | .ok args => args.run env files
  | .error .helpRequested => ⟨0, helpText, "", files⟩
  | .error .versionRequested => ⟨0, programName ++ " " ++ programVersion ++ "\n", "", files⟩
  | .error e => ⟨2, "", e.message, files⟩

end StableFormat.CommandLine
