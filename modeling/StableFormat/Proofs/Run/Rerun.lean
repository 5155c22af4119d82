import Mathlib.Data.List.Permutation
import StableFormat.Proofs.Run.Storing

/-!
# Proofs: a second run on the files that a first run has written

The first run writes the safe outputs. A second one then meets three kinds of files: those that are
clean from now on, those that the first run left alone, and those that it wrote with a member of a
cycle. The last ones cycle again, and are the only ones that a second run changes.
-/

namespace StableFormat

/-- What the result of a file becomes once the file holds its safe output. -/
inductive Reprocessed : FileResult → FileResult → Prop
  | skipped : Reprocessed .skipped .skipped
  | failed (e : StepError) : Reprocessed (.failed e) (.failed e)
  | fixed {p q : Probe} (fixed : p.classification = .wellBehaved ∨ p.classification = .converge)
      (clean : q.isClean = true) : Reprocessed (.probed p) (.probed q)
  | cycle {p q : Probe} {length : ℕ} (before : p.classification = .cycle length)
      (after : q.classification = .cycle length) (notClean : p.isClean = false)
      (orbit : q.orbit = p.orbit.rotate 1) (next : q.safeOutput = p.orbit.getD 1 p.safeOutput)
      (changed : q.hasViolation = true) : Reprocessed (.probed p) (.probed q)
  | diverge {p : Probe} (diverges : p.classification = .diverge) (notClean : p.isClean = false)
      (unchanged : p.hasViolation = false) : Reprocessed (.probed p) (.probed p)

/-- The members of cycles that come after the safe outputs. -/
def nextMemberOf (file : FileOutcome) : List (String × String) :=
  match file.result with
  | .probed p =>
    match p.classification with
    | .cycle _ => [(file.path, p.orbit.getD 1 p.safeOutput)]
    | _ => []
  | _ => []

namespace Collector

variable (c : Collector)

theorem processFile_eq_probed {path content : String} {p : Probe}
    (hskip : c.exemptions.skipsPath path = false)
    (h : probe c.settings.maxIterations (c.transformFor path) content = .ok p) :
    c.processFile ⟨path, content⟩ = .probed p := by
  simp [processFile, hskip, h]

/-- The step lemma of a second run: one file, processed again. -/
theorem reprocessed_settled (file : SourceFile) :
    Reprocessed (c.processFile file) (c.processFile (c.settled file)) := by
  cases hresult : c.processFile file with
  | skipped =>
    have hsame : c.settled file = file := by rw [settled, hresult]
    rw [hsame, hresult]
    exact .skipped
  | failed e =>
    have hsame : c.settled file = file := by rw [settled, hresult]
    rw [hsame, hresult]
    exact .failed e
  | probed p =>
    have hprobe := c.processFile_probed hresult
    have hskip : c.exemptions.skipsPath file.path = false := by
      cases hs : c.exemptions.skipsPath file.path with
      | false => rfl
      | true => simp [processFile, hs] at hresult
    have hsettled : c.settled file = ⟨file.path, p.safeOutput⟩ := by rw [settled, hresult]
    cases hc : p.classification with
    | wellBehaved =>
      have hagain := Orbit.probe_again_fixed hprobe (Or.inl hc)
      rw [hsettled, c.processFile_eq_probed hskip hagain]
      exact .fixed (Or.inl hc) rfl
    | converge =>
      have hagain := Orbit.probe_again_fixed hprobe (Or.inr hc)
      rw [hsettled, c.processFile_eq_probed hskip hagain]
      exact .fixed (Or.inr hc) rfl
    | cycle length =>
      obtain ⟨next, hagain, hnext, hne⟩ := Orbit.probe_again_cycle hprobe hc
      have hclean := Orbit.probe_notClean hprobe (by rw [hc]; simp)
      rw [hsettled, c.processFile_eq_probed hskip hagain]
      exact .cycle hc rfl hclean rfl hnext (decide_eq_true hne)
    | diverge =>
      have hsafe := Orbit.probe_diverge_safeOutput hprobe hc
      have hclean := Orbit.probe_notClean hprobe (by rw [hc]; simp)
      have hsame : c.settled file = file := by rw [hsettled, hsafe]
      have hunchanged : p.hasViolation = false := by
        rw [Probe.hasViolation, hsafe, Orbit.probe_start hprobe]
        simp
      rw [hsame, hresult]
      exact .diverge hc hclean hunchanged

/-! ## What a file adds to the second run -/

variable {before after : FileResult}

theorem isClean_of_orbit {p q : Probe} (h : q.orbit = p.orbit.rotate 1) :
    q.isClean = p.isClean := by
  rw [Probe.isClean, Probe.isClean, h, Bool.eq_iff_iff, List.isEmpty_iff, List.isEmpty_iff,
    List.rotate_eq_nil_iff]

theorem violation?_of_clean {p : Probe} (path : String) (h : p.isClean = true) :
    FileOutcome.violation? ⟨path, .probed p⟩ = none := by
  simp [FileOutcome.violation?, h]

theorem violation?_of_notClean {p : Probe} (path : String) (h : p.isClean = false) :
    FileOutcome.violation? ⟨path, .probed p⟩ = some p := by
  simp [FileOutcome.violation?, h]

/-- A second application writes the next members of the cycles and nothing else. -/
theorem writesOf_again (h : Reprocessed before after) (path : String) :
    writesOf .apply ⟨path, after⟩ = nextMemberOf ⟨path, before⟩ := by
  cases h with
  | skipped => rfl
  | failed e => rfl
  | fixed hfixed hclean =>
    simp only [writesOf, violation?_of_clean path hclean]
    rcases hfixed with hc | hc <;> simp [nextMemberOf, hc]
  | cycle hbefore hafter hclean horbit hnext hchanged =>
    rw [← isClean_of_orbit horbit] at hclean
    simp only [writesOf, violation?_of_notClean path hclean]
    simp [nextMemberOf, hbefore, hnext, hchanged]
  | diverge hc hclean hunchanged =>
    simp only [writesOf, violation?_of_notClean path hclean]
    simp [nextMemberOf, hc, hunchanged]

/-- A file is misbehaving in a check after the writes if and only if it was before. -/
theorem misbehavingOf_again (h : Reprocessed before after) (path : String) :
    c.misbehavingOf ⟨path, after⟩ = [] ↔ c.misbehavingOf ⟨path, before⟩ = [] := by
  cases h with
  | skipped => exact Iff.rfl
  | failed e => exact Iff.rfl
  | @fixed p q hfixed hclean =>
    have hsettles : c.isMisbehaving p = false := by
      rcases hfixed with hc | hc <;> simp [isMisbehaving, hc, Classification.isUnstable]
    rw [misbehavingOf, misbehavingOf, violation?_of_clean path hclean]
    cases hp : p.isClean with
    | true => rw [violation?_of_clean path hp]
    | false => simp [violation?_of_notClean path hp, hsettles]
  | @cycle p q _ hbefore hafter hclean horbit hnext hchanged =>
    have hsame : c.isMisbehaving q = c.isMisbehaving p := by
      rw [isMisbehaving, isMisbehaving, hbefore, hafter]
    have hq : q.isClean = false := (isClean_of_orbit horbit).trans hclean
    rw [misbehavingOf, misbehavingOf, violation?_of_notClean path hq,
      violation?_of_notClean path hclean]
    simp only [hsame]
    split <;> simp
  | diverge hc hclean hunchanged => exact Iff.rfl

/-- After the writes, a check reports no file but the cycles that are tolerated. -/
theorem reportedOf_again (h : Reprocessed before after) (path : String) :
    ∀ entry ∈ c.reportedOf .check ⟨path, after⟩,
      c.settings.paddedCell = true ∧ entry.2.isMisbehaved = true := by
  intro entry hentry
  cases h with
  | skipped => cases hentry
  | failed e => cases hentry
  | fixed hfixed hclean =>
    simp only [reportedOf, violation?_of_clean path hclean] at hentry
    cases hentry
  | @cycle p q _ hbefore hafter hclean horbit hnext hchanged =>
    have hq : q.isClean = false := (isClean_of_orbit horbit).trans hclean
    simp only [reportedOf, violation?_of_notClean path hq] at hentry
    cases hpadded : c.settings.paddedCell with
    | false => simp [isMisbehaving, hpadded, hafter, Classification.isUnstable] at hentry
    | true =>
      have hentry : entry = (path, q) := by
        simpa [isMisbehaving, hpadded, hchanged] using hentry
      rw [hentry]
      simp [Probe.isMisbehaved, Classification.isMisbehaved, hafter]
  | diverge hc hclean hunchanged =>
    simp [reportedOf, violation?_of_notClean path hclean, hunchanged] at hentry

theorem failsRun_again (h : Reprocessed before after) (path : String) :
    c.failsRun .check ⟨path, after⟩ = c.failsRun .apply ⟨path, before⟩ := by
  have happly : c.reportedOf .apply ⟨path, before⟩ = [] := rfl
  have hfailed : FileOutcome.hasFailed ⟨path, after⟩ = FileOutcome.hasFailed ⟨path, before⟩ := by
    cases h <;> rfl
  have hreported : (c.reportedOf .check ⟨path, after⟩).any
      (fun entry => !c.settings.paddedCell || !entry.2.isMisbehaved) = false := by
    rw [List.any_eq_false]
    intro entry hentry
    obtain ⟨hpadded, hm⟩ := c.reportedOf_again h path entry hentry
    simp [hpadded, hm]
  rw [failsRun, failsRun, hreported, happly, hfailed, List.any_nil]

/-! ## Whole runs -/

variable {files : List SourceFile}

/-- The second run meets the same paths in the same order, and its results are those of the files
with their safe outputs. -/
theorem outcomes_settled (files : List SourceFile) :
    c.outcomes (files.map c.settled) =
      (inPathOrder files).map fun file => ⟨file.path, c.processFile (c.settled file)⟩ := by
  rw [outcomes_eq_map, inPathOrder_map c.settled_path, List.map_map]
  refine List.map_congr_left fun file _ => ?_
  simp [outcomeOf]

theorem writes_of_second_run (files : List SourceFile) :
    (c.run .apply (files.map c.settled)).writes = (c.outcomes files).flatMap nextMemberOf := by
  rw [run_writes, outcomes_settled, outcomes_eq_map, List.flatMap_map, List.flatMap_map]
  congr 1
  funext file
  exact writesOf_again (c.reprocessed_settled file) file.path

theorem nextMemberOf_eq_nil_iff {file : FileOutcome} :
    nextMemberOf file = [] ↔
      ∀ p, file.result = .probed p → ∀ length, p.classification ≠ .cycle length := by
  obtain ⟨path, result⟩ := file
  cases result with
  | skipped => simp [nextMemberOf]
  | failed e => simp [nextMemberOf]
  | probed p => cases hc : p.classification <;> simp [nextMemberOf, hc]

/-- Applying twice: the second application writes, to every file that the first one found to cycle,
the member of the cycle after the one that the first application wrote, and nothing else. So it
writes nothing exactly when no file cycles. -/
theorem apply_twice_writes_iff (c : Collector) {files : List SourceFile}
    (hnodup : (files.map (·.path)).Nodup) :
    let first := c.run .apply files
    let second := c.run .apply (storeWrites first.writes files)
    second.writes = first.files.flatMap nextMemberOf ∧
    (second.writes = [] ↔
      ∀ file ∈ first.files, ∀ p, file.result = .probed p →
        ∀ length, p.classification ≠ .cycle length) := by
  intro first second
  have hwrites : second.writes = first.files.flatMap nextMemberOf := by
    simp only [second, first, c.storeWrites_apply hnodup, writes_of_second_run, run_files]
  refine ⟨hwrites, ?_⟩
  rw [hwrites, List.flatMap_eq_nil_iff]
  exact forall₂_congr fun file _ => nextMemberOf_eq_nil_iff

/-- A formatter that goes back and forth between two texts. -/
def pingPong : Collector where
  formatter := ⟨"misc", [.ofFunction "ping-pong" fun s => if s = "A" then "B" else "A"], .unix⟩
  settings := { paddedCell := true }

/-- Two files, of which one cycles. -/
def pingPongFiles : List SourceFile :=
  [⟨"b.txt", "B"⟩, ⟨"a.txt", "CCC"⟩]

/-- On the files of `pingPong`, the second application swaps the texts that the first one wrote. -/
theorem apply_twice_pingPong :
    (pingPongFiles.map (·.path)).Nodup ∧
      (pingPong.run .apply pingPongFiles).writes = [("a.txt", "A"), ("b.txt", "A")] ∧
      (pingPong.run .apply
        (storeWrites (pingPong.run .apply pingPongFiles).writes pingPongFiles)).writes =
          [("a.txt", "B"), ("b.txt", "B")] := by
  have hnodup : (pingPongFiles.map (·.path)).Nodup := by decide
  refine ⟨hnodup, by cbv, ?_⟩
  rw [(apply_twice_writes_iff pingPong hnodup).1]
  cbv

/-- Not every second application writes nothing, even if cycles are tolerated. -/
theorem apply_twice_not_idempotent :
    ¬ ∀ (c : Collector) (files : List SourceFile), c.settings.paddedCell = true →
      (files.map (·.path)).Nodup →
        (c.run .apply (storeWrites (c.run .apply files).writes files)).writes = [] := by
  intro h
  have hagain := h pingPong [⟨"a.txt", "CCC"⟩] rfl (by decide)
  revert hagain
  decide +kernel

theorem errors_of_check (files : List SourceFile) :
    (c.run .check (files.map c.settled)).errors = (c.run .apply files).errors := by
  rw [RunOutcome.errors, RunOutcome.errors, run_files, run_files, outcomes_settled,
    outcomes_eq_map, List.filterMap_map, List.filterMap_map]
  congr 1
  funext file
  have h := c.reprocessed_settled file
  simp only [Function.comp, outcomeOf]
  generalize c.processFile file = before at h
  generalize c.processFile (c.settled file) = after at h
  cases h <;> rfl

theorem failed_of_check (files : List SourceFile) :
    (c.run .check (files.map c.settled)).failed = (c.run .apply files).failed := by
  have hmisbehaving (sorted : List SourceFile) :
      (sorted.flatMap fun file =>
          c.misbehavingOf ⟨file.path, c.processFile (c.settled file)⟩).isEmpty =
        (sorted.flatMap fun file => c.misbehavingOf (c.outcomeOf file)).isEmpty := by
    rw [Bool.eq_iff_iff, List.isEmpty_iff, List.isEmpty_iff, List.flatMap_eq_nil_iff,
      List.flatMap_eq_nil_iff]
    exact forall₂_congr fun file _ =>
      c.misbehavingOf_again (c.reprocessed_settled file) file.path
  have hfails (file : SourceFile) :
      c.failsRun .check ⟨file.path, c.processFile (c.settled file)⟩ =
        c.failsRun .apply (c.outcomeOf file) :=
    c.failsRun_again (c.reprocessed_settled file) file.path
  rw [run_failed, run_failed, outcomes_settled, outcomes_eq_map, List.any_map, List.any_map,
    List.flatMap_map, List.flatMap_map, hmisbehaving]
  congr 2
  funext file
  exact hfails file

theorem report_of_check (files : List SourceFile) (hpadded : c.settings.paddedCell = false) :
    (c.run .check (files.map c.settled)).report = none := by
  rw [run_report_eq_none, outcomes_settled, List.flatMap_map, List.flatMap_eq_nil_iff]
  intro file _
  rw [List.eq_nil_iff_forall_not_mem]
  intro entry hentry
  have h := c.reportedOf_again (c.reprocessed_settled file) file.path entry hentry
  rw [hpadded] at h
  exact absurd h.1 (by simp)

/-- What a second run makes of a file that the first one probed. -/
theorem of_probed {p : Probe} (h : Reprocessed (.probed p) after) :
    ((p.classification = .wellBehaved ∨ p.classification = .converge) →
      ∃ q, after = .probed q ∧ q.isClean = true) ∧
    (∀ length, p.classification = .cycle length →
      ∃ q, after = .probed q ∧ q.classification = .cycle length ∧
        ∀ v, v ∈ q.orbit ↔ v ∈ p.orbit) ∧
    (p.classification = .diverge → after = .probed p) := by
  cases h with
  | @fixed _ q hfixed hclean =>
    refine ⟨fun _ => ⟨q, rfl, hclean⟩, fun length hc => ?_, fun hc => ?_⟩ <;> simp [hc] at hfixed
  | @cycle _ q length hbefore hcycle hclean horbit hnext hchanged =>
    refine ⟨fun hc => ?_, fun length' hc => ?_, fun hc => ?_⟩
    · simp [hbefore] at hc
    · refine ⟨q, rfl, ?_, fun v => ?_⟩
      · rw [hcycle, ← hbefore, hc]
      · rw [horbit, List.mem_rotate]
    · simp [hbefore] at hc
  | diverge hdiverges hclean hunchanged =>
    refine ⟨fun hc => ?_, fun length hc => ?_, fun _ => rfl⟩
    · simp [hdiverges] at hc
    · simp [hdiverges] at hc

/-- A check after an application fails if and only if the application did, with the same failures of
the formatter. What was well-behaved or converging is clean, a cycle is the same cycle again, and an
orbit that diverges is as it was. Unless misbehaving orbits are tolerated, nothing is reported. -/
theorem check_after_apply (c : Collector) {files : List SourceFile}
    (hnodup : (files.map (·.path)).Nodup) :
    let applied := c.run .apply files
    let checked := c.run .check (storeWrites applied.writes files)
    checked.failed = applied.failed ∧
    checked.errors = applied.errors ∧
    checked.files.map (·.path) = applied.files.map (·.path) ∧
    (∀ path p, ⟨path, .probed p⟩ ∈ applied.files →
      ((p.classification = .wellBehaved ∨ p.classification = .converge) →
        ∃ q, ⟨path, .probed q⟩ ∈ checked.files ∧ q.isClean = true) ∧
      (∀ length, p.classification = .cycle length →
        ∃ q, ⟨path, .probed q⟩ ∈ checked.files ∧ q.classification = .cycle length ∧
          ∀ v, v ∈ q.orbit ↔ v ∈ p.orbit) ∧
      (p.classification = .diverge → ⟨path, .probed p⟩ ∈ checked.files)) ∧
    (c.settings.paddedCell = false → checked.report = none) := by
  intro applied checked
  have hchecked : checked = c.run .check (files.map c.settled) := by
    simp only [checked, applied, c.storeWrites_apply hnodup]
  have hfiles : checked.files =
      (inPathOrder files).map fun file => ⟨file.path, c.processFile (c.settled file)⟩ := by
    rw [hchecked, run_files, outcomes_settled]
  have happlied : applied.files = (inPathOrder files).map c.outcomeOf :=
    (c.run_files files).trans (c.outcomes_eq_map files)
  refine ⟨?_, ?_, ?_, ?_, ?_⟩
  · rw [hchecked]
    exact c.failed_of_check files
  · rw [hchecked]
    exact c.errors_of_check files
  · rw [hfiles, happlied, List.map_map, List.map_map]
    rfl
  · intro path p hp
    rw [happlied] at hp
    obtain ⟨file, hfile, heq⟩ := List.mem_map.1 hp
    obtain ⟨rfl, hresult⟩ := FileOutcome.mk.inj heq
    have hmem (after : FileResult) (hafter : c.processFile (c.settled file) = after) :
        ⟨file.path, after⟩ ∈ checked.files := by
      rw [hfiles]
      exact List.mem_map.2 ⟨file, hfile, by rw [hafter]⟩
    have hstep := c.reprocessed_settled file
    rw [hresult] at hstep
    obtain ⟨hfixed, hcycle, hdiverge⟩ := of_probed hstep
    refine ⟨fun hc => ?_, fun length hc => ?_, fun hc => hmem _ (hdiverge hc)⟩
    · obtain ⟨q, hq, hclean⟩ := hfixed hc
      exact ⟨q, hmem _ hq, hclean⟩
    · obtain ⟨q, hq, hclass, horbit⟩ := hcycle length hc
      exact ⟨q, hmem _ hq, hclass, horbit⟩
  · intro hpadded
    rw [hchecked]
    exact c.report_of_check files hpadded

/-- On the files of `pingPong`, a check after an application passes, because cycles are tolerated,
and still meets the cycle. -/
theorem check_after_apply_pingPong :
    (pingPongFiles.map (·.path)).Nodup ∧
      (pingPong.run .check
        (storeWrites (pingPong.run .apply pingPongFiles).writes pingPongFiles)).failed = false ∧
      ∃ q, ⟨"a.txt", .probed q⟩ ∈ (pingPong.run .check
        (storeWrites (pingPong.run .apply pingPongFiles).writes pingPongFiles)).files ∧
          q.classification = .cycle 2 ∧ ∀ v, v ∈ q.orbit ↔ v ∈ ["A", "B"] := by
  have hnodup : (pingPongFiles.map (·.path)).Nodup := by decide
  obtain ⟨hfailed, -, -, hprobed, -⟩ := check_after_apply pingPong hnodup
  have hfiles : (pingPong.run .apply pingPongFiles).files =
      [⟨"a.txt", .probed ⟨"CCC", .cycle 2, ["A", "B"], "A"⟩⟩,
        ⟨"b.txt", .probed ⟨"B", .cycle 2, ["A", "B"], "A"⟩⟩] := by
    cbv
  have hmem : ⟨"a.txt", .probed ⟨"CCC", .cycle 2, ["A", "B"], "A"⟩⟩ ∈
      (pingPong.run .apply pingPongFiles).files := by
    rw [hfiles]
    exact List.mem_cons_self
  refine ⟨hnodup, ?_, (hprobed _ _ hmem).2.1 2 rfl⟩
  rw [hfailed]
  cbv

end Collector

end StableFormat
