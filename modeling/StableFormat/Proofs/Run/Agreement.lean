import StableFormat.Proofs.Run.Storing

/-!
# Proofs: a check and an application of the same files

Both modes probe the files in the same way and differ in what they do about a violation. An
application writes the files that a check puts on record, either in its report or as misbehaving
ones; only a diverging file, which has nothing better to offer than its own text, is never written.
-/

namespace StableFormat.Collector

variable (c : Collector) {files : List SourceFile} {path : String} {p : Probe}

/-! ## The files of a run -/

theorem mem_outcomes {file : FileOutcome} :
    file ∈ c.outcomes files ↔ ∃ source ∈ files, c.outcomeOf source = file := by
  rw [(c.outcomes_perm files).mem_iff, List.mem_map]

/-- Files with different paths come in the strict order of their paths. -/
theorem outcomes_sorted (hnodup : (files.map (·.path)).Nodup) :
    (c.outcomes files).Pairwise fun a b => a.path < b.path := by
  have hle : (c.outcomes files).Pairwise fun a b => a.path ≤ b.path := by
    rw [outcomes_eq_map, List.pairwise_map]
    exact inPathOrder_pairwise files
  have hne : (c.outcomes files).Pairwise fun a b => a.path ≠ b.path :=
    List.pairwise_map.1 (c.outcomes_paths_nodup hnodup)
  refine (hle.and hne).imp ?_
  rintro a b ⟨hab, hab'⟩
  exact Std.lt_of_le_of_ne hab hab'

/-- A probe in the outcome of a run is that of one of its files. -/
theorem probe_of_mem_outcomes (h : ⟨path, .probed p⟩ ∈ c.outcomes files) :
    ∃ source ∈ files, source.path = path ∧
      probe c.settings.maxIterations (c.transformFor source.path) source.content = .ok p := by
  obtain ⟨source, hsource, heq⟩ := c.mem_outcomes.1 h
  obtain ⟨hpath, hresult⟩ := FileOutcome.mk.inj heq
  exact ⟨source, hsource, hpath, c.processFile_probed hresult⟩

/-- The violation of a file in a run is one to write unless it diverges. -/
theorem hasViolation_iff (h : ⟨path, .probed p⟩ ∈ c.outcomes files) :
    p.hasViolation = true ↔ p.isClean = false ∧ p.classification ≠ .diverge := by
  obtain ⟨source, -, -, hprobe⟩ := c.probe_of_mem_outcomes h
  exact Orbit.probe_hasViolation_iff hprobe

/-- A probe with anything but a well-behaved classification is not clean. -/
theorem isClean_eq_false (h : ⟨path, .probed p⟩ ∈ c.outcomes files)
    (hc : p.classification ≠ .wellBehaved) : p.isClean = false := by
  obtain ⟨source, -, -, hprobe⟩ := c.probe_of_mem_outcomes h
  exact Orbit.probe_notClean hprobe hc

/-! ## What is decided about violations -/

theorem mem_reported :
    (path, p) ∈ (c.outcomes files).flatMap (c.reportedOf .check) ↔
      ⟨path, .probed p⟩ ∈ c.outcomes files ∧ p.isClean = false ∧ c.isMisbehaving p = false ∧
        p.classification ≠ .diverge := by
  rw [reportedOf_check, mem_violations]
  constructor
  · rintro ⟨q, hq, hclean, hkeep, hpq⟩
    obtain rfl : p = q := hpq
    rw [Bool.and_eq_true, Bool.not_eq_true', c.hasViolation_iff hq] at hkeep
    exact ⟨hq, hclean, hkeep.1, hkeep.2.2⟩
  · rintro ⟨hp, hclean, hsettles, hdiverge⟩
    refine ⟨p, hp, hclean, ?_, rfl⟩
    rw [Bool.and_eq_true, Bool.not_eq_true', c.hasViolation_iff hp]
    exact ⟨hsettles, hclean, hdiverge⟩

/-- Unless they are tolerated, the misbehaving violations are the cycles and the divergences. -/
theorem isMisbehaving_iff :
    c.isMisbehaving p = true ↔ c.settings.paddedCell = false ∧
      ((∃ length, p.classification = .cycle length) ∨ p.classification = .diverge) := by
  rw [isMisbehaving, Bool.and_eq_true, Bool.not_eq_true']
  refine and_congr_right fun _ => ?_
  cases p.classification <;> simp [Classification.isUnstable]

theorem mem_misbehaving :
    (path, p) ∈ (c.outcomes files).flatMap c.misbehavingOf ↔
      ⟨path, .probed p⟩ ∈ c.outcomes files ∧ p.isClean = false ∧ c.isMisbehaving p = true := by
  rw [misbehavingOf_eq, mem_violations]
  constructor
  · rintro ⟨q, hq, hclean, hmisbehaving, rfl⟩
    exact ⟨hq, hclean, hmisbehaving⟩
  · rintro ⟨hp, hclean, hmisbehaving⟩
    exact ⟨p, hp, hclean, hmisbehaving, rfl⟩

theorem not_diverge_of_settles (hpadded : c.settings.paddedCell = false)
    (h : c.isMisbehaving p = false) : p.classification ≠ .diverge := by
  intro hdiverge
  rw [c.isMisbehaving_iff.2 ⟨hpadded, Or.inr hdiverge⟩] at h
  cases h

/-! ## The paths of a report -/

/-- The report of a check is on the files that it settles on reporting. -/
theorem report_paths (hnodup : (files.map (·.path)).Nodup) :
    (c.tally .check (c.outcomes files)).report.paths =
      ((c.outcomes files).flatMap (c.reportedOf .check)).map (·.1) := by
  rw [tally_eq]
  refine c.foldl_addEntry_paths ?_
  have hsorted : ((c.outcomes files).map (·.path)).Pairwise (· < ·) :=
    List.pairwise_map.2 (c.outcomes_sorted hnodup)
  rw [reportedOf_check]
  exact hsorted.sublist (violations_paths_sublist _ _ _)

theorem mem_report_paths (hnodup : (files.map (·.path)).Nodup) :
    path ∈ (c.tally .check (c.outcomes files)).report.paths ↔
      ∃ p, ⟨path, .probed p⟩ ∈ c.outcomes files ∧ p.isClean = false ∧
        c.isMisbehaving p = false ∧ p.classification ≠ .diverge := by
  rw [c.report_paths hnodup, List.mem_map]
  constructor
  · rintro ⟨⟨path', p⟩, hp, rfl⟩
    exact ⟨p, c.mem_reported.1 hp⟩
  · rintro ⟨p, hp⟩
    exact ⟨(path, p), c.mem_reported.2 hp, rfl⟩

/-! ## What an application writes -/

theorem mem_writes_iff {content : String} :
    (path, content) ∈ (c.run .apply files).writes ↔
      ∃ p, ⟨path, .probed p⟩ ∈ c.outcomes files ∧ p.isClean = false ∧
        p.classification ≠ .diverge ∧ content = p.safeOutput := by
  rw [run_writes, writesOf_apply, mem_violations]
  refine exists_congr fun p => and_congr_right fun hp => ?_
  rw [c.hasViolation_iff hp]
  tauto

/-- What is written to a file differs from what the file holds. -/
theorem write_ne_content (hnodup : (files.map (·.path)).Nodup) {file : SourceFile}
    {content : String} (hfile : file ∈ files)
    (h : (file.path, content) ∈ (c.run .apply files).writes) : content ≠ file.content := by
  obtain ⟨p, hp, hclean, hdiverge, rfl⟩ := c.mem_writes_iff.1 h
  have hviolation := (c.hasViolation_iff hp).2 ⟨hclean, hdiverge⟩
  obtain ⟨source, hsource, hpath, hprobe⟩ := c.probe_of_mem_outcomes hp
  obtain rfl : source = file := List.inj_on_of_nodup_map hnodup hsource hfile hpath
  rw [← Orbit.probe_start hprobe]
  exact of_decide_eq_true hviolation

/-- With misbehaving files tolerated, the report is on the files that an application writes. -/
theorem report_paths_eq_writes (hnodup : (files.map (·.path)).Nodup)
    (hpadded : c.settings.paddedCell = true) :
    (c.tally .check (c.outcomes files)).report.paths = (c.run .apply files).writes.map (·.1) := by
  have hkeep : (fun p : Probe => !c.isMisbehaving p && p.hasViolation) = Probe.hasViolation := by
    funext p
    simp [isMisbehaving, hpadded]
  rw [c.report_paths hnodup, run_writes, reportedOf_check, writesOf_apply, hkeep,
    List.map_flatMap, List.map_flatMap]
  congr 1
  funext file
  rw [violationsOf, violationsOf]
  split
  · split <;> rfl
  · rfl

/-! ## Misbehaving files -/

/-- A violation is on record in one place: the report, unless the file is misbehaving. -/
theorem reported_xor_misbehaving (hnodup : (files.map (·.path)).Nodup)
    (hpadded : c.settings.paddedCell = false) (h : ⟨path, .probed p⟩ ∈ c.outcomes files)
    (hclean : p.isClean = false) :
    Xor (path ∈ (c.tally .check (c.outcomes files)).report.paths)
      ((path, p) ∈ (c.outcomes files).flatMap c.misbehavingOf) := by
  rw [c.mem_report_paths hnodup, c.mem_misbehaving]
  cases hm : c.isMisbehaving p with
  | false =>
    left
    have hdiverge := c.not_diverge_of_settles hpadded hm
    exact ⟨⟨p, h, hclean, hm, hdiverge⟩, fun hmem => by cases hmem.2.2⟩
  | true =>
    right
    refine ⟨⟨h, hclean, rfl⟩, ?_⟩
    rintro ⟨q, hq, -, hsettles, -⟩
    have hsame := List.inj_on_of_nodup_map (c.outcomes_paths_nodup hnodup) hq h rfl
    obtain rfl : q = p := FileResult.probed.inj (FileOutcome.mk.inj hsame).2
    rw [hm] at hsettles
    cases hsettles

/-! ## Which runs fail -/

theorem exists_hasFailed_iff {outcomes : List FileOutcome} :
    (∃ file ∈ outcomes, file.hasFailed = true) ↔ ∃ path e, ⟨path, .failed e⟩ ∈ outcomes := by
  constructor
  · rintro ⟨⟨path, result⟩, h, hfailed⟩
    cases result with
    | skipped => cases hfailed
    | probed p => cases hfailed
    | failed e => exact ⟨path, e, h⟩
  · rintro ⟨path, e, h⟩
    exact ⟨_, h, rfl⟩

theorem run_failed_iff {mode : Mode} :
    (c.run mode files).failed = true ↔
      (∃ path e, ⟨path, .failed e⟩ ∈ c.outcomes files) ∨
      (∃ entry ∈ (c.outcomes files).flatMap (c.reportedOf mode),
        c.settings.paddedCell = false ∨ entry.2.isMisbehaved = false) ∨
      ∃ entry, entry ∈ (c.outcomes files).flatMap c.misbehavingOf := by
  rw [run_failed, Bool.or_eq_true, Bool.not_eq_true', List.isEmpty_eq_false_iff_exists_mem,
    ← exists_hasFailed_iff, ← or_assoc]
  refine or_congr_left ?_
  rw [List.any_eq_true]
  constructor
  · rintro ⟨file, hfile, hfails⟩
    rw [failsRun, Bool.or_eq_true, List.any_eq_true] at hfails
    rcases hfails with hfailed | ⟨entry, hentry, htells⟩
    · exact Or.inl ⟨file, hfile, hfailed⟩
    · refine Or.inr ⟨entry, List.mem_flatMap.2 ⟨file, hfile, hentry⟩, ?_⟩
      simpa using htells
  · rintro (⟨file, hfile, hfailed⟩ | ⟨entry, hentry, htells⟩)
    · exact ⟨file, hfile, by rw [failsRun, hfailed, Bool.true_or]⟩
    · obtain ⟨file, hfile, hentry⟩ := List.mem_flatMap.1 hentry
      refine ⟨file, hfile, ?_⟩
      rw [failsRun, Bool.or_eq_true, List.any_eq_true]
      exact Or.inr ⟨entry, hentry, by simpa using htells⟩

/-- An application fails if a step did or if there are misbehaving files. -/
theorem apply_failed_iff :
    (c.run .apply files).failed = true ↔
      (∃ path e, ⟨path, .failed e⟩ ∈ c.outcomes files) ∨
      (c.settings.paddedCell = false ∧ ∃ path p, ⟨path, .probed p⟩ ∈ c.outcomes files ∧
        ((∃ length, p.classification = .cycle length) ∨ p.classification = .diverge)) := by
  rw [run_failed_iff]
  refine or_congr_right ?_
  constructor
  · rintro (⟨entry, hentry, -⟩ | ⟨⟨path, p⟩, hp⟩)
    · obtain ⟨file, -, hmem⟩ := List.mem_flatMap.1 hentry
      cases hmem
    · obtain ⟨hp, -, hmisbehaving⟩ := c.mem_misbehaving.1 hp
      obtain ⟨hpadded, hc⟩ := c.isMisbehaving_iff.1 hmisbehaving
      exact ⟨hpadded, path, p, hp, hc⟩
  · rintro ⟨hpadded, path, p, hp, hc⟩
    have hclean : p.isClean = false := by
      refine c.isClean_eq_false hp fun hwell => ?_
      simp [hwell] at hc
    exact Or.inr ⟨(path, p), c.mem_misbehaving.2 ⟨hp, hclean, c.isMisbehaving_iff.2 ⟨hpadded, hc⟩⟩⟩

/-- A check fails if a step did or if some file is not clean; if misbehaving files are tolerated, it
takes a well-behaved one. -/
theorem check_failed_iff :
    (c.run .check files).failed = true ↔
      (∃ path e, ⟨path, .failed e⟩ ∈ c.outcomes files) ∨
      (c.settings.paddedCell = false ∧
        ∃ path p, ⟨path, .probed p⟩ ∈ c.outcomes files ∧ p.isClean = false) ∨
      (c.settings.paddedCell = true ∧
        ∃ path p, ⟨path, .probed p⟩ ∈ c.outcomes files ∧ p.isClean = false ∧
          p.classification = .wellBehaved) := by
  have hwell {p : Probe} : p.isMisbehaved = false ↔ p.classification = .wellBehaved := by
    simp [Probe.isMisbehaved, Classification.isMisbehaved]
  rw [run_failed_iff]
  refine or_congr_right ?_
  constructor
  · rintro (⟨⟨path, p⟩, hp, htells⟩ | ⟨⟨path, p⟩, hp⟩)
    · obtain ⟨hp, hclean, -⟩ := c.mem_reported.1 hp
      cases hpadded : c.settings.paddedCell with
      | false => exact Or.inl ⟨rfl, path, p, hp, hclean⟩
      | true =>
        have hc : p.isMisbehaved = false := by simpa [hpadded] using htells
        exact Or.inr ⟨rfl, path, p, hp, hclean, hwell.1 hc⟩
    · obtain ⟨hp, hclean, hmisbehaving⟩ := c.mem_misbehaving.1 hp
      exact Or.inl ⟨(c.isMisbehaving_iff.1 hmisbehaving).1, path, p, hp, hclean⟩
  · rintro (⟨hpadded, path, p, hp, hclean⟩ | ⟨hpadded, path, p, hp, hclean, hc⟩)
    · cases hm : c.isMisbehaving p with
      | true => exact Or.inr ⟨(path, p), c.mem_misbehaving.2 ⟨hp, hclean, hm⟩⟩
      | false =>
        have hdiverge := c.not_diverge_of_settles hpadded hm
        exact Or.inl ⟨(path, p), c.mem_reported.2 ⟨hp, hclean, hm, hdiverge⟩, Or.inl hpadded⟩
    · have hsettles : c.isMisbehaving p = false := by simp [isMisbehaving, hpadded]
      have hdiverge : p.classification ≠ .diverge := by simp [hc]
      exact Or.inl ⟨(path, p), c.mem_reported.2 ⟨hp, hclean, hsettles, hdiverge⟩,
        Or.inr (hwell.2 hc)⟩

/-! ## Files that are left alone -/

theorem outcomeOf_skipped (file : SourceFile) :
    (c.outcomeOf file).result = .skipped ↔ c.exemptions.skipsPath file.path = true := by
  rw [outcomeOf, processFile]
  split
  · next h => simp [h]
  · next h => split <;> simp [h]

/-- Left alone, a file has no part in the order of the others. -/
theorem outcomes_filter (hnodup : (files.map (·.path)).Nodup) :
    c.outcomes (files.filter fun file => !c.exemptions.skipsPath file.path) =
      (c.outcomes files).filter (·.result ≠ .skipped) := by
  have hsublist : (files.filter fun file => !c.exemptions.skipsPath file.path).Sublist files :=
    List.filter_sublist
  have hmap : (files.filter fun file => !c.exemptions.skipsPath file.path).map c.outcomeOf =
      (files.map c.outcomeOf).filter (·.result ≠ .skipped) := by
    rw [List.filter_map]
    congr 1
    refine List.filter_congr fun file _ => ?_
    rw [Bool.eq_iff_iff, Function.comp_apply, decide_eq_true_iff, Ne, c.outcomeOf_skipped,
      Bool.not_eq_true', Bool.not_eq_true]
  have hperm : (c.outcomes (files.filter fun file => !c.exemptions.skipsPath file.path)).Perm
      ((c.outcomes files).filter (·.result ≠ .skipped)) := by
    refine (c.outcomes_perm _).trans ?_
    rw [hmap]
    exact ((c.outcomes_perm files).filter _).symm
  -- Both are in the strict order of the paths.
  refine hperm.eq_of_pairwise ?_ (c.outcomes_sorted ((hsublist.map _).nodup hnodup))
    ((c.outcomes_sorted hnodup).filter _)
  intro a b _ _ hab hba
  exact absurd hba (String.lt_asymm hab)

theorem tally_filter (mode : Mode) (outcomes : List FileOutcome) :
    c.tally mode (outcomes.filter (·.result ≠ .skipped)) = c.tally mode outcomes := by
  rw [tally, tally, List.foldl_filter]
  congr 1
  funext t file
  cases hresult : file.result with
  | skipped => simp [settle, hresult]
  | probed p => simp
  | failed e => simp

/-- A run of the files that are not left alone is the whole run without the others. -/
theorem run_filter (hnodup : (files.map (·.path)).Nodup) (mode : Mode) :
    c.run mode (files.filter fun file => !c.exemptions.skipsPath file.path) =
      { c.run mode files with files := (c.run mode files).files.filter (·.result ≠ .skipped) } := by
  rw [run_files, run, run, c.outcomes_filter hnodup, tally_filter, conclude, conclude]
  split <;> rfl

/-! ## The two modes side by side -/

theorem apply_report : (c.run .apply files).report = none := by
  rw [run_report_eq_none, List.flatMap_eq_nil_iff]
  intro file _
  rfl

theorem apply_annotations : (c.run .apply files).annotations = [] := by
  have hreported : (c.outcomes files).flatMap (c.reportedOf .apply) = [] :=
    List.flatMap_eq_nil_iff.2 fun file _ => rfl
  rw [run, conclude, tally_eq, hreported]
  split <;> rfl

theorem check_writes : (c.run .check files).writes = [] := by
  rw [run_writes, List.flatMap_eq_nil_iff]
  intro file _
  rfl

/-- Without padding, a violation is reported if writing once settles it and misbehaving if not. -/
theorem reported_or_misbehaving (hnodup : (files.map (·.path)).Nodup)
    (hpadded : c.settings.paddedCell = false) (h : ⟨path, .probed p⟩ ∈ c.outcomes files)
    (hclean : p.isClean = false) :
    (path ∈ (c.tally .check (c.outcomes files)).report.paths ↔
      p.classification = .wellBehaved ∨ p.classification = .converge) ∧
    ((path, p) ∈ (c.outcomes files).flatMap c.misbehavingOf ↔
      (∃ length, p.classification = .cycle length) ∨ p.classification = .diverge) := by
  have hmisbehaving : (path, p) ∈ (c.outcomes files).flatMap c.misbehavingOf ↔
      (∃ length, p.classification = .cycle length) ∨ p.classification = .diverge := by
    rw [c.mem_misbehaving, c.isMisbehaving_iff]
    exact ⟨fun hmem => hmem.2.2.2, fun hc => ⟨h, hclean, hpadded, hc⟩⟩
  refine ⟨?_, hmisbehaving⟩
  have hxor := c.reported_xor_misbehaving hnodup hpadded h hclean
  rw [hmisbehaving] at hxor
  rw [xor_iff_iff_not.1 hxor]
  cases p.classification <;> simp

/-- A check and an application of the same files agree. Both come to the same result for every
file. A check writes nothing; an application reports nothing, and writes every file once that is
neither clean nor diverging, with its safe output, which is not what the file holds. What is decided
in a check puts the same files on record: with padding, the report is on the files that are written,
and without it, every violation is either in the report, if writing once settles it, or among the
misbehaving ones. Both fail if a step failed; else a check fails if a file is not clean, which with
padding must be a well-behaved one, and an application only without padding, if a file cycles or
diverges. Files that are left alone have no part in this. -/
theorem check_apply_agree (c : Collector) {files : List SourceFile}
    (hnodup : (files.map (·.path)).Nodup) :
    let checked := c.run .check files
    let applied := c.run .apply files
    let decided := c.tally .check checked.files
    checked = c.conclude .check checked.files decided ∧
    checked.files = applied.files ∧ checked.files.Perm (files.map c.outcomeOf) ∧
    checked.writes = [] ∧ applied.report = none ∧ applied.annotations = [] ∧
    (applied.writes.map (·.1)).Nodup ∧
    (∀ path content, (path, content) ∈ applied.writes ↔
      ∃ p, ⟨path, .probed p⟩ ∈ applied.files ∧ p.isClean = false ∧
        p.classification ≠ .diverge ∧ content = p.safeOutput) ∧
    (∀ file ∈ files, ∀ content, (file.path, content) ∈ applied.writes → content ≠ file.content) ∧
    (c.settings.paddedCell = true → decided.report.paths = applied.writes.map (·.1)) ∧
    (c.settings.paddedCell = false →
      (∀ path p, ⟨path, .probed p⟩ ∈ checked.files → p.isClean = false →
        Xor (path ∈ decided.report.paths) ((path, p) ∈ decided.misbehaving) ∧
        (path ∈ decided.report.paths ↔
          p.classification = .wellBehaved ∨ p.classification = .converge) ∧
        ((path, p) ∈ decided.misbehaving ↔
          (∃ length, p.classification = .cycle length) ∨ p.classification = .diverge)) ∧
      (∀ path ∈ decided.report.paths,
        ∃ p, ⟨path, .probed p⟩ ∈ checked.files ∧ p.isClean = false) ∧
      (∀ path p, (path, p) ∈ decided.misbehaving →
        ⟨path, .probed p⟩ ∈ checked.files ∧ p.isClean = false)) ∧
    (checked.failed = true ↔
      (∃ path e, ⟨path, .failed e⟩ ∈ checked.files) ∨
      (c.settings.paddedCell = false ∧
        ∃ path p, ⟨path, .probed p⟩ ∈ checked.files ∧ p.isClean = false) ∨
      (c.settings.paddedCell = true ∧
        ∃ path p, ⟨path, .probed p⟩ ∈ checked.files ∧ p.isClean = false ∧
          p.classification = .wellBehaved)) ∧
    (applied.failed = true ↔
      (∃ path e, ⟨path, .failed e⟩ ∈ applied.files) ∨
      (c.settings.paddedCell = false ∧ ∃ path p, ⟨path, .probed p⟩ ∈ applied.files ∧
        ((∃ length, p.classification = .cycle length) ∨ p.classification = .diverge))) ∧
    ∀ mode, c.run mode (files.filter fun file => !c.exemptions.skipsPath file.path) =
      { c.run mode files with
        files := (c.run mode files).files.filter (·.result ≠ .skipped) } := by
  intro checked applied decided
  have hchecked : checked.files = c.outcomes files := c.run_files files
  have happlied : applied.files = c.outcomes files := c.run_files files
  have hdecided : decided = c.tally .check (c.outcomes files) := by rw [← hchecked]
  have hmisbehaving : decided.misbehaving = (c.outcomes files).flatMap c.misbehavingOf := by
    rw [hdecided, tally_eq]
  rw [hmisbehaving, hdecided, hchecked, happlied]
  refine ⟨rfl, rfl, c.outcomes_perm files, c.check_writes, c.apply_report, c.apply_annotations,
    c.writes_paths_nodup hnodup, fun path content => c.mem_writes_iff,
    fun file hfile content => c.write_ne_content hnodup hfile,
    c.report_paths_eq_writes hnodup, ?_, c.check_failed_iff, c.apply_failed_iff,
    c.run_filter hnodup⟩
  intro hpadded
  refine ⟨?_, ?_, ?_⟩
  · intro path p hp hclean
    exact ⟨c.reported_xor_misbehaving hnodup hpadded hp hclean,
      c.reported_or_misbehaving hnodup hpadded hp hclean⟩
  · intro path hpath
    obtain ⟨p, hp, hclean, -⟩ := (c.mem_report_paths hnodup).1 hpath
    exact ⟨p, hp, hclean⟩
  · intro path p hp
    obtain ⟨hp, hclean, -⟩ := c.mem_misbehaving.1 hp
    exact ⟨hp, hclean⟩

/-- A formatter that shortens some texts by a letter at a time and turns others around. -/
def shortening : Collector where
  formatter :=
    ⟨"misc", [.ofFunction "shorten" fun s =>
      if s = "AAA" then "AA" else if s = "AA" then "A" else
      if s = "BA" then "AB" else if s = "AB" then "BA" else s], .unix⟩

/-- A file for each way in which `shortening` settles a text or does not. -/
def shorteningFiles : List SourceFile :=
  [⟨"turn.txt", "BA"⟩, ⟨"twice.txt", "AAA"⟩, ⟨"once.txt", "AA"⟩, ⟨"clean.txt", "A"⟩]

/-- Of the files of `shortening`, the one that turns around is misbehaving and not in the report of
a check; an application still writes it, and fails. -/
theorem check_apply_agree_shortening :
    (shorteningFiles.map (·.path)).Nodup ∧
      "turn.txt" ∉ (shortening.tally .check
        (shortening.run .check shorteningFiles).files).report.paths ∧
      ("turn.txt", "AB") ∈ (shortening.run .apply shorteningFiles).writes ∧
      (shortening.run .apply shorteningFiles).failed = true := by
  have hnodup : (shorteningFiles.map (·.path)).Nodup := by decide
  obtain ⟨-, hsame, -, -, -, -, -, hwritten, -, -, hsettled, -, hfailed, -⟩ :=
    check_apply_agree shortening hnodup
  have hturn : ⟨"turn.txt", .probed ⟨"BA", .cycle 2, ["AB", "BA"], "AB"⟩⟩ ∈
      (shortening.run .apply shorteningFiles).files := by
    rw [run_files, mem_outcomes]
    exact ⟨⟨"turn.txt", "BA"⟩, List.mem_cons_self, by cbv⟩
  refine ⟨hnodup, ?_, ?_, ?_⟩
  · intro hreported
    have hmem := hturn
    rw [← hsame] at hmem
    have hclass := ((hsettled rfl).1 _ _ hmem rfl).2.1.1 hreported
    simp at hclass
  · exact (hwritten _ _).2 ⟨_, hturn, rfl, by simp, rfl⟩
  · exact hfailed.2 (Or.inr ⟨rfl, _, _, hturn, Or.inl ⟨2, rfl⟩⟩)

end StableFormat.Collector
