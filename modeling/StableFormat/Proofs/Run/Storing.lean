import Mathlib.Data.List.Nodup
import StableFormat.Proofs.Orbit.Reprobe
import StableFormat.Proofs.Run.Tally

/-!
# Proofs: files after the writes of a run

The writes of a run are stored in the files that it was run on. With different paths for different
files, every file then holds its safe output, and a second run meets the same paths in the same
order.
-/

namespace StableFormat

/-- Stores a write in every file with its path. -/
def storeWrite (files : List SourceFile) (write : String × String) : List SourceFile :=
  files.map fun f => if f.path = write.1 then { f with content := write.2 } else f

/-- Stores writes in files, one after the other. -/
def storeWrites (writes : List (String × String)) (files : List SourceFile) : List SourceFile :=
  writes.foldl storeWrite files

/-- What writes make of one file. -/
def SourceFile.afterWrites (writes : List (String × String)) (file : SourceFile) : SourceFile :=
  writes.foldl (fun f write => if f.path = write.1 then { f with content := write.2 } else f) file

theorem storeWrites_eq_map (writes : List (String × String)) (files : List SourceFile) :
    storeWrites writes files = files.map (SourceFile.afterWrites writes) := by
  induction writes generalizing files with
  | nil => exact (List.map_id' files).symm
  | cons write rest ih =>
    have hcons : storeWrites (write :: rest) files =
        storeWrites rest (storeWrite files write) := rfl
    rw [hcons, ih, storeWrite, List.map_map]
    rfl

theorem SourceFile.afterWrites_of_notMem {writes : List (String × String)} {file : SourceFile}
    (h : file.path ∉ writes.map (·.1)) : file.afterWrites writes = file := by
  induction writes with
  | nil => rfl
  | cons write rest ih =>
    simp only [List.map_cons, List.mem_cons, not_or] at h
    simp only [afterWrites, List.foldl_cons, h.1, if_false]
    exact ih h.2

/-- With one write for each path, a file gets the content that is written to its path. -/
theorem SourceFile.afterWrites_of_mem {writes : List (String × String)} {file : SourceFile}
    {content : String} (hnodup : (writes.map (·.1)).Nodup) (h : (file.path, content) ∈ writes) :
    file.afterWrites writes = { file with content := content } := by
  induction writes with
  | nil => cases h
  | cons write rest ih =>
    simp only [List.map_cons, List.nodup_cons] at hnodup
    rcases List.mem_cons.1 h with rfl | hmem
    · simp only [afterWrites, List.foldl_cons, if_true]
      exact afterWrites_of_notMem hnodup.1
    · have hne : file.path ≠ write.1 :=
        fun heq => hnodup.1 (heq ▸ List.mem_map_of_mem hmem)
      simp only [afterWrites, List.foldl_cons, hne, if_false]
      exact ih hnodup.2 hmem

namespace Collector

variable (c : Collector)

/-- What becomes of a file in a run. -/
def outcomeOf (file : SourceFile) : FileOutcome :=
  ⟨file.path, c.processFile file⟩

/-- Files in the order of their paths. -/
def inPathOrder (files : List SourceFile) : List SourceFile :=
  files.mergeSort fun a b => a.path ≤ b.path

theorem outcomes_eq_map (files : List SourceFile) :
    c.outcomes files = (inPathOrder files).map c.outcomeOf := by
  have hsort : (inPathOrder files).map c.outcomeOf =
      (files.map c.outcomeOf).mergeSort fun a b => a.path ≤ b.path :=
    List.map_mergeSort fun a _ b _ => rfl
  rw [hsort]
  rfl

theorem pathOrder_trans (a b d : SourceFile) (hab : decide (a.path ≤ b.path) = true)
    (hbd : decide (b.path ≤ d.path) = true) : decide (a.path ≤ d.path) = true := by
  rw [decide_eq_true_iff] at hab hbd ⊢
  exact String.le_trans hab hbd

theorem pathOrder_total (a b : SourceFile) :
    (decide (a.path ≤ b.path) || decide (b.path ≤ a.path)) = true := by
  rw [Bool.or_eq_true, decide_eq_true_iff, decide_eq_true_iff]
  exact String.le_total a.path b.path

theorem inPathOrder_pairwise (files : List SourceFile) :
    (inPathOrder files).Pairwise fun a b => a.path ≤ b.path :=
  (List.pairwise_mergeSort pathOrder_trans pathOrder_total files).imp of_decide_eq_true

theorem inPathOrder_perm (files : List SourceFile) : (inPathOrder files).Perm files :=
  List.mergeSort_perm _ _

/-- A change of contents does not change the order. -/
theorem inPathOrder_map {f : SourceFile → SourceFile} (hf : ∀ file, (f file).path = file.path)
    (files : List SourceFile) : inPathOrder (files.map f) = (inPathOrder files).map f := by
  rw [inPathOrder, inPathOrder]
  exact (List.map_mergeSort fun a _ b _ => by rw [hf, hf]).symm

/-- The file with its safe output, if it has been probed. -/
def settled (file : SourceFile) : SourceFile :=
  match c.processFile file with
  | .probed p => { file with content := p.safeOutput }
  | _ => file

@[simp]
theorem settled_path (file : SourceFile) : (c.settled file).path = file.path := by
  rw [settled]
  split <;> rfl

theorem mem_writesOf {file : FileOutcome} {write : String × String} :
    write ∈ writesOf .apply file ↔
      ∃ p, file.result = .probed p ∧ p.isClean = false ∧ p.hasViolation = true ∧
        write = (file.path, p.safeOutput) := by
  obtain ⟨path, result⟩ := file
  cases result with
  | skipped => simp [writesOf, FileOutcome.violation?]
  | failed e => simp [writesOf, FileOutcome.violation?]
  | probed p =>
    cases hclean : p.isClean <;> cases hv : p.hasViolation <;>
      simp [writesOf, FileOutcome.violation?, hclean, hv]

/-- What a probed file's result is about. -/
theorem processFile_probed {file : SourceFile} {p : Probe} (h : c.processFile file = .probed p) :
    probe c.settings.maxIterations (c.transformFor file.path) file.content = .ok p := by
  rw [processFile] at h
  split at h
  · cases h
  · split at h
    · next q hq =>
      cases h
      exact hq
    · cases h

theorem outcomes_perm (files : List SourceFile) :
    (c.outcomes files).Perm (files.map c.outcomeOf) := by
  rw [outcomes_eq_map]
  exact (inPathOrder_perm files).map _

theorem outcomes_paths_nodup {files : List SourceFile} (hnodup : (files.map (·.path)).Nodup) :
    ((c.outcomes files).map (·.path)).Nodup := by
  have hmap : (files.map c.outcomeOf).map (·.path) = files.map (·.path) := by
    simp [outcomeOf]
  rw [((c.outcomes_perm files).map (·.path)).nodup_iff, hmap]
  exact hnodup

theorem writes_paths_nodup {files : List SourceFile} (hnodup : (files.map (·.path)).Nodup) :
    ((c.run .apply files).writes.map (·.1)).Nodup := by
  rw [run_writes, writesOf_apply]
  exact (violations_paths_sublist _ _ _).nodup (c.outcomes_paths_nodup hnodup)

theorem mem_writes {files : List SourceFile} {write : String × String} :
    write ∈ (c.run .apply files).writes ↔
      ∃ file ∈ files, write ∈ writesOf .apply (c.outcomeOf file) := by
  simp [run_writes, List.mem_flatMap, (c.outcomes_perm files).mem_iff]

/-- A file that is not written holds its safe output already. -/
theorem safeOutput_of_unwritten {file : SourceFile} {p : Probe}
    (hp : c.processFile file = .probed p)
    (h : (file.path, p.safeOutput) ∉ writesOf .apply (c.outcomeOf file)) :
    p.safeOutput = file.content := by
  have hprobe := c.processFile_probed hp
  by_contra hne
  have hviolation : p.hasViolation = true := by
    rw [Probe.hasViolation, Orbit.probe_start hprobe]
    exact decide_eq_true hne
  cases hclean : p.isClean with
  | true =>
    rw [(Orbit.probe_clean hprobe hclean).2] at hne
    exact hne rfl
  | false => exact h (mem_writesOf.2 ⟨p, hp, hclean, hviolation, rfl⟩)

/-- After the writes of a run have been stored, every file that was probed holds its safe output. -/
theorem storeWrites_apply {files : List SourceFile} (hnodup : (files.map (·.path)).Nodup) :
    storeWrites (c.run .apply files).writes files = files.map c.settled := by
  rw [storeWrites_eq_map]
  refine List.map_congr_left fun file hfile => ?_
  by_cases hwritten : ∃ content, (file.path, content) ∈ (c.run .apply files).writes
  · obtain ⟨content, hw⟩ := hwritten
    rw [SourceFile.afterWrites_of_mem (c.writes_paths_nodup hnodup) hw]
    obtain ⟨other, hother, hw⟩ := c.mem_writes.1 hw
    obtain ⟨p, hp, -, -, heq⟩ := mem_writesOf.1 hw
    obtain ⟨hpath, hcontent⟩ := Prod.mk.inj heq
    obtain rfl : file = other := List.inj_on_of_nodup_map hnodup hfile hother hpath
    have hresult : c.processFile file = .probed p := hp
    rw [settled, hresult, hcontent]
  · have hnot : file.path ∉ (c.run .apply files).writes.map (·.1) := by
      intro h
      obtain ⟨⟨path, content⟩, hw, rfl⟩ := List.mem_map.1 h
      exact hwritten ⟨content, hw⟩
    rw [SourceFile.afterWrites_of_notMem hnot, settled]
    split
    · next p hp =>
      have hunwritten : (file.path, p.safeOutput) ∉ writesOf .apply (c.outcomeOf file) :=
        fun hw => hwritten ⟨_, c.mem_writes.2 ⟨file, hfile, hw⟩⟩
      rw [c.safeOutput_of_unwritten hp hunwritten]
    · rfl

end Collector

end StableFormat
