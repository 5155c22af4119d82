import StableFormat.Proofs.CommandLine.Refusal
import StableFormat.Proofs.FileTree.Frame
import StableFormat.Proofs.FileTree.WriteBack
import StableFormat.Proofs.Run.Decomposition

/-!
# Proofs: what a check changes

A check writes no results, so all that it changes are the orbits that it keeps and those of earlier
runs that it removes. Their directory is named by the configuration and by the format. A format whose
name leads elsewhere by `..`, or is an absolute path, takes whatever stands there for orbits.
-/

namespace StableFormat.CommandLine

open FileTree Pathname

variable {env : Environment} {files : FileTree} {arguments : List String} {args : Args} {job : Job}
  {formats : List FormatConfig} {s s' : Session} {above directory : Pathname} {format : String}
  {place : Place} {touched : Place → Prop}

/-- The places that keeping the orbits of a format may change: those at or below its directory, and
those that the names of its orbits lead to from there. -/
def OrbitPlace (above : Pathname) (format : String) (place : Place) : Prop :=
  (above.child format).destination <+: place ∨
    ∃ (names : List String) (number : Nat), names ≠ [] ∧ (∀ name ∈ names, IsName name) ∧
      place = ((above.child format).child
        (Text.joinStrings '/' names ++ "." ++ format ++ toString number)).destination

/-- The orbits of a format whose name stays below are kept below the directory for all formats. -/
theorem OrbitPlace.isBelow (h : OrbitPlace above format place) (habove : above.isAbsolute = true)
    (hstays : StaysBelow format) : above.destination <+: place := by
  have hdirectory := hstays.destination_below habove
  rcases h with hbelow | ⟨names, number, hne, hnames, hplace⟩
  · exact hdirectory.trans hbelow
  · have horbit := hstays.orbitName number hne hnames
    rw [hplace]
    exact hdirectory.trans (horbit.destination_below (join_isAbsolute habove))

/-! ## Roots and sources -/

theorem findRoot_eq_ok {o : Options} {root : Pathname} :
    o.findRoot env files = .ok root ↔
      files.canonical (env.absolute ((o.root.map Pathname.mk).getD env.workingDirectory)) =
        .ok root := by
  unfold Options.findRoot
  dsimp only
  split
  · next found hfound =>
    rw [hfound]
    constructor
    · intro h
      rw [Except.ok.inj h]
    · intro h
      rw [Except.ok.inj h]
  · next e hmissing =>
    rw [hmissing]
    constructor
    · intro h
      cases h
    · intro h
      cases h

theorem root_isAbsolute (h : args.prepare env files = .ok (job, formats)) :
    job.root.isAbsolute = true := by
  obtain ⟨-, hroot, -⟩ := prepare_eq_ok h
  have hcanonical := findRoot_eq_ok.1 hroot
  rw [canonical] at hcanonical
  cases hplace : files.locate (env.absolute ((args.options.root.map Pathname.mk).getD
      env.workingDirectory)) with
  | error e =>
    rw [hplace] at hcanonical
    cases hcanonical
  | ok place =>
    rw [hplace] at hcanonical
    have hpath : pathOf place = job.root := Except.ok.inj hcanonical
    rw [← hpath]
    simp [isAbsolute, pathOf]

/-- The path of a source is made of names. -/
theorem names_of_mem_readSources {selection : Selection} {source : SourceFile}
    (hroot : job.root.isAbsolute = true) (h : source ∈ (job.readSources files selection).1) :
    ∃ names, names ≠ [] ∧ (∀ name ∈ names, IsName name) ∧
      source.path = Text.joinStrings '/' names := by
  obtain ⟨read, hread, hsource⟩ := List.mem_filterMap.1 h
  obtain ⟨path, -, rfl⟩ := List.mem_map.1 hread
  cases hresult : files.readSource job.root path with
  | error e =>
    rw [hresult] at hsource
    cases hsource
  | ok other =>
    rw [hresult] at hsource
    obtain rfl : other = source := Option.some.inj hsource
    obtain ⟨hrelative, -, -⟩ := readSource_eq_ok hresult
    obtain ⟨-, names, -, hne, hnames, hpath, -⟩ := relativeTo?_eq_some hroot hrelative
    exact ⟨names, hne, hnames, hpath⟩

/-! ## One format after the other -/

theorem keepOrbits_changesOnly {diagnostics : List DiagnosticFile}
    (hdirectory : ∀ place, directory.destination <+: place → touched place)
    (horbits : ∀ d ∈ diagnostics, touched (directory.child d.name).destination) :
    ChangesOnly touched files (job.keepOrbits files directory diagnostics).1 := by
  have hcleared : ChangesOnly touched files (files.clearDirectory directory).1 :=
    clearDirectory_changesOnly.mono hdirectory
  rw [Job.keepOrbits]
  split
  · split
    · next hfailed =>
      rw [hfailed] at hcleared
      exact hcleared
    · next emptied hok =>
      rw [hok] at hcleared
      exact hcleared.trans (writeDiagnostics_changesOnly horbits)
  · exact .refl files

/-- In a check, a format changes no files but those at the places of its orbits. -/
theorem runFormat_changesOnly (hmode : job.mode = .check) (hroot : job.root.isAbsolute = true)
    {ready : ReadyFormat} (hrun : job.runFormat s ready = .ok s') :
    ChangesOnly (OrbitPlace (Job.diagnoseRoot job.root job.config) ready.formatter.name) s.files
      s'.files := by
  have hwrites : ∀ (c : Collector) sources, job.writeAll s.files (c.run job.mode sources).writes =
      (s.files, true) := by
    intro c sources
    rw [hmode, c.check_writes, Job.writeAll]
  rw [Job.runFormat] at hrun
  obtain ⟨-, -, report, -, hcarried⟩ := by simpa only [bind_eq_ok] using hrun
  obtain rfl := Except.ok.inj hcarried
  simp only [Job.carryOut, hwrites]
  apply keepOrbits_changesOnly
  · intro place hplace
    exact Or.inl hplace
  · intro d hd
    obtain ⟨source, hsource, number, hname⟩ := Collector.diagnostic_name _ hd
    obtain ⟨names, hne, hnames, hpath⟩ := names_of_mem_readSources hroot hsource
    right
    refine ⟨names, number, hne, hnames, ?_⟩
    rw [hname, hpath]
    rfl

theorem runFormats_changesOnly (hmode : job.mode = .check) (hroot : job.root.isAbsolute = true)
    (formats : List FormatConfig) :
    ChangesOnly
      (fun place => ∃ f ∈ formats, OrbitPlace (Job.diagnoseRoot job.root job.config) f.name place)
      s.files (job.runFormats s formats).files := by
  apply runFormats_files (P := fun t => ChangesOnly _ s.files t) (.refl _)
  intro start f ready s' hf hready hsofar hrun
  have hname : ready.formatter.name = f.name :=
    (FormatConfig.build_eq_ok (FormatConfig.prepare_eq_ok.1 hready).1).1
  have hstep := runFormat_changesOnly hmode hroot hrun
  rw [hname] at hstep
  exact hsofar.trans (hstep.mono fun place hplace => ⟨f, hf, hplace⟩)

/-- Where misbehaving formats are tolerated, a check removes the orbits of earlier runs even if it has
no files to work on. -/
theorem runFormat_files_of_no_paths (hmode : job.mode = .check) (hpaths : job.paths = [])
    (hpadded : job.config.paddedCell = true) (ready : ReadyFormat) :
    ∃ s', job.runFormat s ready = .ok s' ∧ s'.files = (s.files.clearDirectory
      ((Job.diagnoseRoot job.root job.config).child ready.formatter.name)).1 := by
  have hsources : job.readSources s.files ready.selection = ([], true) := by
    rw [Job.readSources, hpaths]
    rfl
  have hkept : ∀ c : Collector, (c.run job.mode []).diagnostics = [] := by
    intro c
    apply List.eq_nil_iff_forall_not_mem.2
    intro d hd
    obtain ⟨source, hsource, -⟩ := Collector.diagnostic_name c hd
    cases hsource
  have hwritten : ∀ c : Collector, (c.run job.mode []).writes = [] := by
    intro c
    rw [hmode, c.check_writes]
  have hnone : ∀ c : Collector, c.outcomes [] = [] := by
    intro c
    simp [Collector.outcomes]
  have hchecked : ∀ c : Collector, (c.run job.mode []).checkFiles = .ok () := by
    intro c
    rw [RunOutcome.checkFiles, RunOutcome.errors, c.run_files, hnone]
    rfl
  have hreport : ∀ c : Collector, (c.run job.mode []).reportText = .ok none := by
    intro c
    have hempty : (c.run job.mode []).report = none := by
      rw [c.run_report_eq_none, hnone]
      rfl
    rw [RunOutcome.reportText, hempty]
  rw [Job.runFormat]
  simp only [hsources, hchecked, hreport, Checked.ok_bind]
  refine ⟨_, rfl, ?_⟩
  simp only [Job.carryOut, hkept, hwritten, Job.writeAll, Job.keepOrbits, hpadded, Bool.true_or,
    if_true]
  split
  · next hfailed => exact (congrArg Prod.fst hfailed).symm
  · next hcleared => exact (congrArg Prod.fst hcleared).symm

/-! ## A whole check -/

/-- A check that is refused changes nothing. Any other one changes no files but those at the places
of the orbits of its formats. If the names of the formats stay below the directory that the orbits
are kept in, no file outside of it is changed, made or removed. -/
theorem check_changes_orbits (hread : Args.read arguments = .ok args) (hmode : args.mode = .check) :
    (∀ e, args.prepare env files = .error e → (run env files arguments).files = files) ∧
    ∀ job formats, args.prepare env files = .ok (job, formats) →
      ChangesOnly
        (fun place => ∃ f ∈ formats, OrbitPlace (Job.diagnoseRoot job.root job.config) f.name place)
        files (run env files arguments).files ∧
      ((∀ f ∈ formats, StaysBelow f.name) →
        ∀ place, ¬ (Job.diagnoseRoot job.root job.config).destination <+: place →
          (run env files arguments).files.fileAt? place = files.fileAt? place) := by
  refine ⟨?_, ?_⟩
  · intro e hprepare
    exact (files_of_isRefused (Or.inr ⟨args, e, hread, hprepare⟩)).2
  · intro job formats hprepare
    have hroot := root_isAbsolute hprepare
    have hcheck : job.mode = .check := (prepare_eq_ok hprepare).1.trans hmode
    have hrun : (run env files arguments).files =
        (job.runFormats { files := files } formats).files := by
      rw [run, hread]
      exact congrArg Result.files (run_of_prepare hprepare)
    have hchanges := runFormats_changesOnly (s := { files := files }) hcheck hroot formats
    rw [hrun]
    refine ⟨hchanges, ?_⟩
    intro hstays place houtside
    apply hchanges place
    rintro ⟨f, hf, hplace⟩
    exact houtside (hplace.isBelow (join_isAbsolute hroot) (hstays f hf))

/-! ## Formats that are named like the way to the sources -/

/-- A tree with the sources of a project and with two formats. From the directory that the orbits are
kept in, the name of the second one leads to the sources. -/
def withSources : FileTree :=
  ⟨[(["work"], .directory),
    (["work", "padcell.toml"], .file (.text (
      "padded_cell = true\n\n" ++
      "[[format]]\nname = \"misc\"\nsteps = [\x7b kind = \"end-with-newline\" \x7d]\n\n" ++
      "[[format]]\nname = \"../../src\"\nsteps = [\x7b kind = \"end-with-newline\" \x7d]\n"))),
    (["work", "build"], .directory), (["work", "build", "padcell-diagnose"], .directory),
    (["work", "docs"], .directory), (["work", "src"], .directory),
    (["work", "src", "a.txt"], .file (.text "a\n"))]⟩

def plainFormat : FormatConfig :=
  { name := "misc", steps := [.endWithNewline] }

def strayFormat : FormatConfig :=
  { name := "../../src", steps := [.endWithNewline] }

/-- A check of a directory in which there are no files. -/
def checkDocs : Job where
  mode := .check
  silent := false
  env := ⟨⟨"/work"⟩, []⟩
  root := ⟨"/work"⟩
  config := { Config.default with paddedCell := true, formats := [plainFormat, strayFormat] }
  paths := []

theorem prepare_withSources (names : List String)
    (h : checkFormats checkDocs.config names = .ok formats) :
    Args.prepare ⟨.check, { paths := ["docs"], formats := names }⟩ checkDocs.env withSources =
      .ok (checkDocs, formats) := by
  have habsolute : checkDocs.env.absolute ⟨"/work"⟩ = ⟨"/work"⟩ := by decide +kernel
  have hcanonical : withSources.canonical (checkDocs.env.absolute ⟨"/work"⟩) = .ok ⟨"/work"⟩ := by
    rw [habsolute]
    rfl
  have hroot : Options.findRoot { paths := ["docs"], formats := names } checkDocs.env withSources =
      .ok ⟨"/work"⟩ := findRoot_eq_ok.2 hcanonical
  have hconfig : Config.discovered checkDocs.env withSources ⟨"/work"⟩ = checkDocs.config := by
    decide +kernel
  have hfiles : withSources.filesOf ⟨"/work"⟩ [] ⟨"docs"⟩ = [] := by decide +kernel
  have hpaths : withSources.collect ⟨"/work"⟩ [⟨"docs"⟩] [] = [] := by
    simp [collect, hfiles, dropRepeated]
  rw [Args.prepare]
  have hoverride : Options.override { paths := ["docs"], formats := names } checkDocs.config =
      checkDocs.config := rfl
  simp only [hroot, Options.configuration, hconfig, hoverride, h, List.map_cons, List.map_nil,
    List.filterMap_nil, hpaths, List.filter_nil, bind, Except.bind]
  rfl

/-- The name of the first format stays below, and its check leaves the sources alone. -/
theorem check_changes_orbits_plain :
    StaysBelow plainFormat.name ∧
      (run checkDocs.env withSources ["check", "docs", "--format", "misc"]).files.fileAt?
        ["work", "src", "a.txt"] = some (.text "a\n") := by
  have hread : Args.read ["check", "docs", "--format", "misc"] =
      .ok ⟨.check, { paths := ["docs"], formats := ["misc"] }⟩ := by rfl
  have hprepare : Args.prepare ⟨.check, { paths := ["docs"], formats := ["misc"] }⟩ checkDocs.env
      withSources = .ok (checkDocs, [plainFormat]) := prepare_withSources ["misc"] (by rfl)
  have hstays : StaysBelow plainFormat.name := by decide
  have houtside : ¬ (Job.diagnoseRoot checkDocs.root checkDocs.config).destination <+:
      ["work", "src", "a.txt"] := by decide +kernel
  obtain ⟨-, hframe⟩ := @check_changes_orbits checkDocs.env withSources _ _ hread rfl
  obtain ⟨-, hbelow⟩ := hframe checkDocs [plainFormat] hprepare
  refine ⟨hstays, ?_⟩
  rw [hbelow (by simpa using hstays) _ houtside]
  rfl

/-- The configuration can be used, and the sources lie outside of the directory for orbits. But the
check of the second format removes them in place of orbits of earlier runs. -/
theorem check_removes_sources :
    ∃ args job formats,
      Args.read ["check", "docs", "--format", "../../src"] = .ok args ∧ args.mode = .check ∧
      args.prepare checkDocs.env withSources = .ok (job, formats) ∧
      job.config.validate = .ok () ∧
      ¬ (Job.diagnoseRoot job.root job.config).destination <+: ["work", "src", "a.txt"] ∧
      withSources.fileAt? ["work", "src", "a.txt"] = some (.text "a\n") ∧
      (run checkDocs.env withSources ["check", "docs", "--format", "../../src"]).files.fileAt?
        ["work", "src", "a.txt"] = none := by
  have hread : Args.read ["check", "docs", "--format", "../../src"] =
      .ok ⟨.check, { paths := ["docs"], formats := ["../../src"] }⟩ := by rfl
  have hprepare : Args.prepare ⟨.check, { paths := ["docs"], formats := ["../../src"] }⟩
      checkDocs.env withSources = .ok (checkDocs, [strayFormat]) :=
    prepare_withSources ["../../src"] (by rfl)
  have houtside : ¬ (Job.diagnoseRoot checkDocs.root checkDocs.config).destination <+:
      ["work", "src", "a.txt"] := by decide +kernel
  obtain ⟨ready, hready⟩ : ∃ ready, strayFormat.prepare checkDocs.config.lineEnding = .ok ready :=
    ⟨_, rfl⟩
  have hname : ready.formatter.name = "../../src" :=
    (FormatConfig.build_eq_ok (FormatConfig.prepare_eq_ok.1 hready).1).1
  have hfiles : (checkDocs.runFormats { files := withSources } [strayFormat]).files =
      (withSources.clearDirectory
        ((Job.diagnoseRoot checkDocs.root checkDocs.config).child "../../src")).1 := by
    have hmode : checkDocs.mode = .check := rfl
    have hpaths : checkDocs.paths = [] := rfl
    have hpadded : checkDocs.config.paddedCell = true := rfl
    obtain ⟨s', hrun, hfiles⟩ := runFormat_files_of_no_paths (s := { files := withSources }) hmode
      hpaths hpadded ready
    rw [hname] at hfiles
    rw [Job.runFormats, hready]
    simp only [hrun]
    exact hfiles
  refine ⟨_, _, _, hread, rfl, hprepare, by rfl, houtside, by rfl, ?_⟩
  rw [run, hread]
  simp only [run_of_prepare hprepare, hfiles]
  decide +kernel

end StableFormat.CommandLine
