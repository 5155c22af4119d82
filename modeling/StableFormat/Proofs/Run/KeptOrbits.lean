import StableFormat.Proofs.Orbit.Trace
import StableFormat.Proofs.Run.Decomposition
import StableFormat.Proofs.Text.Numbers

/-!
# Proofs: the orbits that a run keeps

With the padded-cell setting a run keeps the orbits of all misbehaving files, and without it only the
one of the first file that it complains about. The names of what is kept are put together from a
path, the name of the format and a number, with nothing between the last two; still no two of them
are the same.
-/

namespace StableFormat

/-- The files with a probe of one of these classifications, in their order. -/
def probedAs (keep : Classification → Bool) (outcomes : List FileOutcome) :
    List (String × Probe) :=
  outcomes.filterMap fun file =>
    match file.result with
    | .probed p => if keep p.classification then some (file.path, p) else none
    | _ => none

namespace Collector

variable (c : Collector) {mode : Mode} {files : List SourceFile}

/-! ## The files whose orbits are kept -/

/-- Only well-behaved files can be clean. -/
theorem violations_eq_probedAs {keep : Classification → Bool} (hkeep : keep .wellBehaved = false) :
    (c.outcomes files).flatMap (violationsOf (keep ·.classification) id) =
      probedAs keep (c.outcomes files) := by
  unfold probedAs
  rw [List.filterMap_eq_flatMap_toList]
  refine List.flatMap_congr fun file hfile => ?_
  obtain ⟨path, result⟩ := file
  cases result with
  | skipped => rfl
  | failed e => rfl
  | probed p =>
    by_cases hk : keep p.classification = true
    · have hc : p.classification ≠ .wellBehaved := by
        intro heq
        rw [heq, hkeep] at hk
        cases hk
      have hclean := c.isClean_eq_false hfile hc
      simp [violationsOf, FileOutcome.violation?, hclean, hk]
    · cases hclean : p.isClean <;> simp [violationsOf, FileOutcome.violation?, hclean, hk]

theorem paths_probedAs_nodup (hnodup : (files.map (·.path)).Nodup)
    (keep : Classification → Bool) (hkeep : keep .wellBehaved = false) :
    ((probedAs keep (c.outcomes files)).map (·.1)).Nodup := by
  rw [← c.violations_eq_probedAs hkeep]
  exact (violations_paths_sublist _ _ _).nodup (c.outcomes_paths_nodup hnodup)

theorem misbehaving_eq_probedAs (hpadded : c.settings.paddedCell = false) :
    (c.outcomes files).flatMap c.misbehavingOf =
      probedAs Classification.isUnstable (c.outcomes files) := by
  have hkeep : c.isMisbehaving = fun p => p.classification.isUnstable := by
    funext p
    rw [isMisbehaving, hpadded]
    rfl
  rw [misbehavingOf_eq, hkeep]
  exact c.violations_eq_probedAs rfl

theorem toleratedOrbitOf_padded (hpadded : c.settings.paddedCell = true) (file : FileOutcome) :
    c.toleratedOrbitOf file =
      (violationsOf (·.classification.isMisbehaved) id file).flatMap fun entry =>
        c.diagnosticsFor entry.1 entry.2 := by
  unfold toleratedOrbitOf violationsOf
  cases file.violation? with
  | none => rfl
  | some p =>
    show (if c.settings.paddedCell && p.classification.isMisbehaved then _ else _) = _
    rw [hpadded]
    cases hm : p.classification.isMisbehaved <;> simp [hm]

theorem orbits_padded (hpadded : c.settings.paddedCell = true) :
    (c.run mode files).diagnostics =
      (probedAs Classification.isMisbehaved (c.outcomes files)).flatMap fun entry =>
        c.diagnosticsFor entry.1 entry.2 := by
  have hsettles : (c.outcomes files).flatMap c.misbehavingOf = [] :=
    List.flatMap_eq_nil_iff.2 fun file _ => c.misbehavingOf_padded hpadded file
  have htolerated : c.toleratedOrbitOf = fun file =>
      (violationsOf (·.classification.isMisbehaved) id file).flatMap fun entry =>
        c.diagnosticsFor entry.1 entry.2 := funext (c.toleratedOrbitOf_padded hpadded)
  rw [run_diagnostics, hsettles, htolerated, ← List.flatMap_assoc, c.violations_eq_probedAs rfl]
  rfl

theorem orbits_unpadded (hpadded : c.settings.paddedCell = false) :
    (c.run mode files).diagnostics =
      (probedAs Classification.isUnstable (c.outcomes files)).head?.toList.flatMap fun entry =>
        c.diagnosticsFor entry.1 entry.2 := by
  have htolerated : (c.outcomes files).flatMap c.toleratedOrbitOf = [] :=
    List.flatMap_eq_nil_iff.2 fun file _ => c.toleratedOrbitOf_unpadded hpadded file
  rw [run_diagnostics, c.misbehaving_eq_probedAs hpadded, htolerated]
  cases (probedAs Classification.isUnstable (c.outcomes files)).head? <;> simp

/-! ## The file that a run complains about -/

/-- A run complains if some file is misbehaving, about the first one. -/
theorem run_misbehaving (mode : Mode) (files : List SourceFile) :
    (c.run mode files).misbehaving =
      match (c.outcomes files).flatMap c.misbehavingOf with
      | [] => none
      | (path, p) :: others => some (c.misbehavingMessage mode path p (others.map (·.1))) := by
  rw [run, conclude, tally_eq]
  split
  · next h =>
    simp only at h
    simp [h]
  · next h =>
    simp only at h
    simp [h]

/-- The message names the file right behind its heading. -/
theorem misbehavingMessage_names (mode : Mode) (path : String) (p : Probe) (others : List String) :
    ∃ rest, c.misbehavingMessage mode path p others =
      "You have a misbehaving rule which can't make up its mind.\n" ++
        "This means that 'padcell check' will fail even after 'padcell apply' has run.\n\n" ++
        "The file in question is " ++ path ++ "\n" ++ rest := by
  unfold misbehavingMessage
  simp only [String.append_assoc]
  exact ⟨_, rfl⟩

/-- Without padding a run complains about the first file that cycles or diverges. -/
theorem misbehaving_unpadded (hpadded : c.settings.paddedCell = false) :
    (probedAs Classification.isUnstable (c.outcomes files) = [] →
      (c.run mode files).misbehaving = none) ∧
    ∀ path p others,
      probedAs Classification.isUnstable (c.outcomes files) = (path, p) :: others →
      ∃ rest, (c.run mode files).misbehaving = some
        ("You have a misbehaving rule which can't make up its mind.\n" ++
          "This means that 'padcell check' will fail even after 'padcell apply' has run.\n\n" ++
          "The file in question is " ++ path ++ "\n" ++ rest) := by
  have hcomplaint := c.run_misbehaving mode files
  rw [c.misbehaving_eq_probedAs hpadded] at hcomplaint
  constructor
  · intro hnone
    rw [hnone] at hcomplaint
    exact hcomplaint
  · intro path p others hfirst
    obtain ⟨rest, hmessage⟩ := c.misbehavingMessage_names mode path p (others.map (·.1))
    rw [hfirst] at hcomplaint
    refine ⟨rest, ?_⟩
    rw [← hmessage]
    exact hcomplaint

/-! ## Names -/

/-- An orbit's values have different numbers, and orbits of different paths different names. -/
theorem orbitNames_nodup {kept : List (String × Probe)} (h : (kept.map (·.1)).Nodup) :
    ((kept.flatMap fun entry => c.diagnosticsFor entry.1 entry.2).map (·.name)).Nodup := by
  rw [List.map_flatMap, List.nodup_flatMap]
  constructor
  · rintro ⟨path, p⟩ -
    unfold List.Nodup
    rw [List.pairwise_map, List.pairwise_iff_getElem]
    intro i j hi hj hij heq
    simp only [diagnosticsFor, List.getElem_mapIdx] at heq
    have hnumber := (Text.numbered_inj heq).2
    omega
  · rw [List.Nodup, List.pairwise_map] at h
    refine h.imp ?_
    rintro ⟨path, p⟩ ⟨path', p'⟩ hne name hname hname'
    obtain ⟨d, hd, rfl⟩ := List.mem_map.1 hname
    obtain ⟨d', hd', heq⟩ := List.mem_map.1 hname'
    obtain ⟨m, hm⟩ := c.exists_number_of_mem_diagnosticsFor hd
    obtain ⟨n, hn⟩ := c.exists_number_of_mem_diagnosticsFor hd'
    rw [hm, hn] at heq
    exact hne (Text.numbered_inj heq).1.symm

/-- No two orbits' values have the same name. -/
theorem diagnostics_names_nodup (hnodup : (files.map (·.path)).Nodup) :
    ((c.run mode files).diagnostics.map (·.name)).Nodup := by
  cases hpadded : c.settings.paddedCell with
  | true =>
    rw [c.orbits_padded hpadded]
    exact c.orbitNames_nodup (c.paths_probedAs_nodup hnodup Classification.isMisbehaved rfl)
  | false =>
    rw [c.orbits_unpadded hpadded]
    cases probedAs Classification.isUnstable (c.outcomes files) with
    | nil => exact c.orbitNames_nodup List.nodup_nil
    | cons first others => exact c.orbitNames_nodup (List.nodup_singleton _)

/-- The orbits that a run keeps. Its files come in the order of their paths, each with what became of
it, and every orbit is a trace of the transform for its file. With the padded-cell setting the orbits
of all files are kept that are not well-behaved, file by file and value by value; without it the
orbit of the first file that cycles or diverges, which is the one that the message names, and nothing
if there is no such file. All names are different, whatever the name of the format. -/
theorem run_keeps_orbits (c : Collector) (mode : Mode) (files : List SourceFile)
    (hnodup : (files.map (·.path)).Nodup) :
    let run := c.run mode files
    let orbitFiles (entry : String × Probe) : List DiagnosticFile :=
      entry.2.orbit.mapIdx fun i content =>
        ⟨entry.1 ++ "." ++ c.formatter.name ++ toString (i + 1), content⟩
    let unstable := probedAs Classification.isUnstable run.files
    run.files.Pairwise (fun a b => a.path < b.path) ∧
    (∀ file, file ∈ run.files ↔ ∃ source ∈ files, file = ⟨source.path, c.processFile source⟩) ∧
    (∀ source ∈ files, ∀ p, c.processFile source = .probed p →
      p.start = source.content ∧ Orbit.Traced (c.transformFor source.path) p) ∧
    (c.settings.paddedCell = true →
      run.diagnostics = (probedAs Classification.isMisbehaved run.files).flatMap orbitFiles) ∧
    (c.settings.paddedCell = false →
      run.diagnostics = unstable.head?.toList.flatMap orbitFiles ∧
      (unstable = [] → run.misbehaving = none) ∧
      ∀ path p others, unstable = (path, p) :: others → ∃ rest, run.misbehaving = some
        ("You have a misbehaving rule which can't make up its mind.\n" ++
          "This means that 'padcell check' will fail even after 'padcell apply' has run.\n\n" ++
          "The file in question is " ++ path ++ "\n" ++ rest)) ∧
    (run.diagnostics.map (·.name)).Nodup := by
  intro run orbitFiles unstable
  have hfiles : run.files = c.outcomes files := c.run_files files
  have hunstable : unstable = probedAs Classification.isUnstable (c.outcomes files) := by
    rw [← hfiles]
  refine ⟨?_, ?_, ?_, ?_, ?_, ?_⟩
  · rw [hfiles]
    exact c.outcomes_sorted hnodup
  · intro file
    rw [hfiles, mem_outcomes]
    exact exists_congr fun source => and_congr_right fun _ => eq_comm
  · intro source _ p hp
    have hprobe := c.processFile_probed hp
    exact ⟨Orbit.probe_start hprobe, Orbit.probe_traced hprobe⟩
  · intro hpadded
    rw [hfiles]
    exact c.orbits_padded hpadded
  · intro hpadded
    rw [hunstable]
    exact ⟨c.orbits_unpadded hpadded, c.misbehaving_unpadded hpadded⟩
  · exact c.diagnostics_names_nodup hnodup

/-- A formatter with a number for a name that turns texts around. -/
def restless (padded : Bool) : Collector where
  formatter := ⟨"1.1", [.ofFunction "turn" fun s => if s = "A" then "B" else "A"], .unix⟩
  settings := { paddedCell := padded }

/-- Two files whose paths differ by what a number could be. -/
def restlessFiles : List SourceFile :=
  [⟨"a", "B"⟩, ⟨"a.1", "A"⟩]

/-- Both files turn around, and all four names are different. Without padding the orbit of the first
one is kept, and the message names it. -/
theorem run_keeps_orbits_restless :
    (restlessFiles.map (·.path)).Nodup ∧
      ((restless true).run .check restlessFiles).diagnostics =
        [⟨"a.1.11", "A"⟩, ⟨"a.1.12", "B"⟩, ⟨"a.1.1.11", "B"⟩, ⟨"a.1.1.12", "A"⟩] ∧
      (((restless true).run .check restlessFiles).diagnostics.map (·.name)).Nodup ∧
      ((restless false).run .check restlessFiles).diagnostics =
        [⟨"a.1.11", "A"⟩, ⟨"a.1.12", "B"⟩] ∧
      ∃ rest, ((restless false).run .check restlessFiles).misbehaving = some
        ("You have a misbehaving rule which can't make up its mind.\n" ++
          "This means that 'padcell check' will fail even after 'padcell apply' has run.\n\n" ++
          "The file in question is " ++ "a" ++ "\n" ++ rest) := by
  have hnodup : (restlessFiles.map (·.path)).Nodup := by decide
  have hsorted : inPathOrder restlessFiles = restlessFiles :=
    List.mergeSort_of_pairwise (by decide)
  obtain ⟨-, -, -, hpadded, -, hnames⟩ :=
    run_keeps_orbits (restless true) .check restlessFiles hnodup
  obtain ⟨-, -, -, -, hunpadded, -⟩ :=
    run_keeps_orbits (restless false) .check restlessFiles hnodup
  obtain ⟨hfirst, -, hcomplaint⟩ := hunpadded rfl
  refine ⟨hnodup, ?_, hnames, ?_,
    hcomplaint "a" ⟨"B", .cycle 2, ["A", "B"], "A"⟩ [("a.1", ⟨"A", .cycle 2, ["B", "A"], "B"⟩)] ?_⟩
  · rw [hpadded rfl, run_files, outcomes_eq_map, hsorted]
    rfl
  · rw [hfirst, run_files, outcomes_eq_map, hsorted]
    rfl
  · rw [run_files, outcomes_eq_map, hsorted]
    rfl

end Collector

end StableFormat
