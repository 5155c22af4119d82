import StableFormat.Proofs.Run.Agreement

/-!
# Proofs: a run and the runs of its files

A run is put together from the runs of its files, one file each, in the order of the paths. A file
on which the formatter fails has its entry among the results and no other effect than to make the
run fail. As long as no two files share a path, it does not matter in which order they come.
-/

namespace StableFormat.Collector

variable (c : Collector) {mode : Mode} {file : SourceFile} {files : List SourceFile}

/-! ## The order of the files -/

/-- Files with one path stay in the order in which they came. -/
theorem inPathOrder_filter (files : List SourceFile) (path : String) :
    (inPathOrder files).filter (·.path = path) = files.filter (·.path = path) := by
  have htied : (files.filter (·.path = path)).Pairwise
      fun a b => decide (a.path ≤ b.path) = true := by
    refine List.pairwise_of_forall_mem_list fun a ha b hb => ?_
    have hpath : a.path = b.path := by
      rw [of_decide_eq_true (List.mem_filter.1 ha).2, of_decide_eq_true (List.mem_filter.1 hb).2]
    exact decide_eq_true (hpath ▸ String.le_refl a.path)
  have hsublist : (files.filter (·.path = path)).Sublist (inPathOrder files) :=
    List.sublist_mergeSort pathOrder_trans pathOrder_total htied List.filter_sublist
  have hkept := hsublist.filter (·.path = path)
  rw [List.filter_filter] at hkept
  simp only [Bool.and_self] at hkept
  exact (hkept.eq_of_length ((inPathOrder_perm files).filter _).length_eq.symm).symm

theorem mem_of_filter_path {l l' : List SourceFile}
    (h : ∀ path, l.filter (·.path = path) = l'.filter (·.path = path)) (hfile : file ∈ l) :
    file ∈ l' := by
  have hkept : file ∈ l.filter (·.path = file.path) := List.mem_filter.2 ⟨hfile, by simp⟩
  rw [h] at hkept
  exact (List.mem_filter.1 hkept).1

/-- Two lists in the order of paths are the same if they have the same files for each path. -/
theorem eq_of_filter_path {l l' : List SourceFile}
    (hl : l.Pairwise fun a b => a.path ≤ b.path) (hl' : l'.Pairwise fun a b => a.path ≤ b.path)
    (h : ∀ path, l.filter (·.path = path) = l'.filter (·.path = path)) : l = l' := by
  induction l generalizing l' with
  | nil =>
    refine (List.eq_nil_iff_forall_not_mem.2 fun file hfile => ?_).symm
    exact List.not_mem_nil (mem_of_filter_path (fun path => (h path).symm) hfile)
  | cons a rest ih =>
    have ha := mem_of_filter_path h List.mem_cons_self
    cases l' with
    | nil => exact absurd ha List.not_mem_nil
    | cons b rest' =>
      have hb := mem_of_filter_path (fun path => (h path).symm) List.mem_cons_self
      rw [List.pairwise_cons] at hl hl'
      have hab : a.path ≤ b.path := by
        rcases List.mem_cons.1 hb with heq | hb
        · exact heq ▸ String.le_refl b.path
        · exact hl.1 b hb
      have hba : b.path ≤ a.path := by
        rcases List.mem_cons.1 ha with heq | ha
        · exact heq ▸ String.le_refl a.path
        · exact hl'.1 a ha
      -- Both heads are the first file with their path.
      have hhead := h a.path
      rw [List.filter_cons_of_pos (by simp),
        List.filter_cons_of_pos (by simp [String.le_antisymm hba hab])] at hhead
      obtain ⟨rfl, -⟩ := List.cons.inj hhead
      have hrest : ∀ path, rest.filter (·.path = path) = rest'.filter (·.path = path) := by
        intro path
        have hall := h path
        rw [List.filter_cons, List.filter_cons] at hall
        split at hall
        · exact (List.cons.inj hall).2
        · exact hall
      rw [ih hl.2 hl'.2 hrest]

/-- One more file goes to its place and leaves the order of the others. -/
theorem inPathOrder_insert (before : List SourceFile) (file : SourceFile)
    (after : List SourceFile) :
    ∃ l₁ l₂, inPathOrder (before ++ file :: after) = l₁ ++ file :: l₂ ∧
      inPathOrder (before ++ after) = l₁ ++ l₂ := by
  have hfilter := inPathOrder_filter (before ++ file :: after)
  have hsame := hfilter file.path
  rw [List.filter_append, List.filter_cons_of_pos (by simp), List.filter_eq_append_iff] at hsame
  obtain ⟨s₁, s₂, hsplit, hs₁, hs₂⟩ := hsame
  rw [List.filter_eq_cons_iff] at hs₂
  obtain ⟨m₁, m₂, rfl, hm₁, -, hm₂⟩ := hs₂
  refine ⟨s₁ ++ m₁, m₂, by rw [hsplit, List.append_assoc], ?_⟩
  have hsorted := inPathOrder_pairwise (before ++ file :: after)
  rw [hsplit] at hsorted
  refine eq_of_filter_path (inPathOrder_pairwise _) (hsorted.sublist ?_) fun path => ?_
  · rw [List.append_assoc]
    exact ((List.sublist_cons_self file m₂).append_left m₁).append_left s₁
  · rw [inPathOrder_filter]
    by_cases hpath : file.path = path
    · subst hpath
      have hnone : m₁.filter (·.path = file.path) = [] := List.filter_eq_nil_iff.2 hm₁
      rw [List.filter_append, List.filter_append, List.filter_append, hs₁, hnone, hm₂,
        List.append_nil]
    · have hother := hfilter path
      rw [hsplit] at hother
      simp only [List.filter_append, List.filter_cons, hpath, decide_false, Bool.false_eq_true,
        if_false] at hother ⊢
      rw [List.append_assoc, hother]

/-! ## The run of one file -/

theorem outcomes_singleton (file : SourceFile) : c.outcomes [file] = [c.outcomeOf file] := by
  rw [outcomes_eq_map, inPathOrder, List.mergeSort_singleton]
  rfl

theorem run_annotations :
    (c.run mode files).annotations =
      ((c.outcomes files).flatMap (c.reportedOf mode)).flatMap c.commandsFor := by
  rw [run, conclude, tally_eq]
  split <;> rfl

/-- The orbits that are kept: that of the first misbehaving file, or else the tolerated ones. -/
theorem run_diagnostics :
    (c.run mode files).diagnostics =
      (((c.outcomes files).flatMap c.misbehavingOf).head?.map fun first =>
        c.diagnosticsFor first.1 first.2).getD ((c.outcomes files).flatMap c.toleratedOrbitOf) := by
  rw [run, conclude, tally_eq]
  split
  · next h =>
    simp only at h
    simp [h]
  · next h =>
    simp only at h
    simp [h]

theorem exists_number_of_mem_diagnosticsFor {path : String} {p : Probe} {d : DiagnosticFile}
    (h : d ∈ c.diagnosticsFor path p) :
    ∃ number : ℕ, d.name = path ++ "." ++ c.formatter.name ++ toString number := by
  rw [diagnosticsFor, List.mem_mapIdx] at h
  obtain ⟨i, hi, rfl⟩ := h
  exact ⟨i + 1, rfl⟩

/-- What is kept of an orbit is named after a file of the run, the format and a number. -/
theorem diagnostic_name {d : DiagnosticFile} (h : d ∈ (c.run mode files).diagnostics) :
    ∃ source ∈ files, ∃ number : ℕ,
      d.name = source.path ++ "." ++ c.formatter.name ++ toString number := by
  obtain ⟨file, hfile, p, horbit⟩ :
      ∃ file ∈ c.outcomes files, ∃ p, d ∈ c.diagnosticsFor file.path p := by
    rw [run_diagnostics] at h
    cases hfirst : ((c.outcomes files).flatMap c.misbehavingOf).head? with
    | some first =>
      rw [hfirst] at h
      obtain ⟨file, hfile, hmem⟩ := List.mem_flatMap.1 (List.mem_of_head? hfirst)
      have hpath : first.1 = file.path := by
        rw [misbehavingOf] at hmem
        split at hmem
        · split at hmem
          · rw [List.mem_singleton.1 hmem]
          · cases hmem
        · cases hmem
      exact ⟨file, hfile, first.2, hpath ▸ h⟩
    | none =>
      rw [hfirst] at h
      obtain ⟨file, hfile, hmem⟩ := List.mem_flatMap.1 h
      rw [toleratedOrbitOf] at hmem
      split at hmem
      · next p _ =>
        split at hmem
        · exact ⟨file, hfile, p, hmem⟩
        · cases hmem
      · cases hmem
  obtain ⟨source, hsource, rfl⟩ := c.mem_outcomes.1 hfile
  exact ⟨source, hsource, c.exists_number_of_mem_diagnosticsFor horbit⟩

/-- A run fails if one of its files makes it fail or is misbehaving. -/
theorem run_failed_eq_any :
    (c.run mode files).failed =
      (c.outcomes files).any fun file => c.failsRun mode file || !(c.misbehavingOf file).isEmpty := by
  rw [run_failed]
  generalize c.outcomes files = outcomes
  induction outcomes with
  | nil => rfl
  | cons file rest ih =>
    rw [List.any_cons, List.any_cons, List.flatMap_cons, ← ih]
    cases hfile : c.misbehavingOf file with
    | nil => simp [Bool.or_assoc]
    | cons entry others => simp

/-- A list of results of all files, one after the other, from those of the files on their own. -/
theorem outcomes_flatMap {α : Type} (f : FileOutcome → List α) (files : List SourceFile) :
    (c.outcomes files).flatMap f =
      (inPathOrder files).flatMap fun file => (c.outcomes [file]).flatMap f := by
  rw [outcomes_eq_map, List.flatMap_map]
  congr 1
  funext file
  rw [outcomes_singleton, List.flatMap_singleton]

/-! ## Misbehaving files -/

theorem misbehavingOf_padded (hpadded : c.settings.paddedCell = true) (file : FileOutcome) :
    c.misbehavingOf file = [] := by
  rw [misbehavingOf]
  split
  · simp [isMisbehaving, hpadded]
  · rfl

theorem toleratedOrbitOf_unpadded (hpadded : c.settings.paddedCell = false) (file : FileOutcome) :
    c.toleratedOrbitOf file = [] := by
  rw [toleratedOrbitOf]
  split
  · simp [hpadded]
  · rfl

/-- A misbehaving file has an orbit to keep. -/
theorem diagnosticsFor_ne_nil {file : FileOutcome} {entry : String × Probe}
    (h : entry ∈ c.misbehavingOf file) : c.diagnosticsFor entry.1 entry.2 ≠ [] := by
  have hclean : entry.2.isClean = false := by
    rw [misbehavingOf_eq] at h
    have hmem : (entry.1, entry.2) ∈ [file].flatMap (violationsOf c.isMisbehaving id) := by
      simpa using h
    obtain ⟨p, -, hclean, -, heq⟩ := mem_violations.1 hmem
    rw [heq]
    exact hclean
  rw [Probe.isClean, List.isEmpty_eq_false_iff] at hclean
  simpa [diagnosticsFor] using hclean

/-- The orbit that is kept of a run is that of the first file that has one to keep. -/
theorem first_misbehaving_orbit (outcomes : List FileOutcome) :
    ((outcomes.flatMap c.misbehavingOf).head?.map fun first =>
        c.diagnosticsFor first.1 first.2).getD [] =
      ((outcomes.map fun file => ((c.misbehavingOf file).head?.map fun first =>
        c.diagnosticsFor first.1 first.2).getD []).find? (· ≠ [])).getD [] := by
  induction outcomes with
  | nil => rfl
  | cons file rest ih =>
    rw [List.flatMap_cons, List.map_cons]
    cases hfile : c.misbehavingOf file with
    | nil =>
      rw [List.nil_append, ih, List.find?_cons_of_neg (by simp)]
    | cons entry others =>
      have horbit : c.diagnosticsFor entry.1 entry.2 ≠ [] :=
        c.diagnosticsFor_ne_nil (hfile ▸ List.mem_cons_self)
      simp [horbit]

theorem diagnostics_unpadded (hpadded : c.settings.paddedCell = false) :
    (c.run mode files).diagnostics =
      (((inPathOrder files).map fun file => (c.run mode [file]).diagnostics).find?
        (· ≠ [])).getD [] := by
  have htolerated (outcomes : List FileOutcome) : outcomes.flatMap c.toleratedOrbitOf = [] :=
    List.flatMap_eq_nil_iff.2 fun file _ => c.toleratedOrbitOf_unpadded hpadded file
  simp only [run_diagnostics, htolerated]
  rw [first_misbehaving_orbit, outcomes_eq_map, List.map_map]
  congr 3
  funext file
  rw [outcomes_singleton, List.flatMap_singleton]
  rfl

theorem diagnostics_padded (hpadded : c.settings.paddedCell = true) :
    (c.run mode files).diagnostics =
      (inPathOrder files).flatMap fun file => (c.run mode [file]).diagnostics := by
  have hsettles (outcomes : List FileOutcome) : outcomes.flatMap c.misbehavingOf = [] :=
    List.flatMap_eq_nil_iff.2 fun file _ => c.misbehavingOf_padded hpadded file
  simp only [run_diagnostics, hsettles]
  exact c.outcomes_flatMap _ files

/-! ## Files on which the formatter fails -/

/-- To the decisions about the other files, a failure adds that the run fails. -/
theorem tally_failed (path : String) (e : StepError) (l₁ l₂ : List FileOutcome) :
    c.tally mode (l₁ ++ ⟨path, .failed e⟩ :: l₂) = { c.tally mode (l₁ ++ l₂) with failed := true } := by
  have hreported : c.reportedOf mode ⟨path, .failed e⟩ = [] := by cases mode <;> rfl
  have hwrites : writesOf mode ⟨path, .failed e⟩ = [] := by cases mode <;> rfl
  have hfails : c.failsRun mode ⟨path, .failed e⟩ = true := by rw [failsRun]; rfl
  rw [tally_eq, tally_eq]
  simp [hreported, hwrites, hfails, misbehavingOf, toleratedOrbitOf, FileOutcome.violation?]

theorem conclude_failed (outcomes outcomes' : List FileOutcome) (t : Tally) :
    c.conclude mode outcomes { t with failed := true } =
      { c.conclude mode outcomes' t with files := outcomes, failed := true } := by
  rw [conclude, conclude]
  cases t.misbehaving <;> rfl

theorem run_failed_file {e : StepError} (h : c.processFile file = .failed e)
    (before after : List SourceFile) :
    ∃ l₁ l₂, (c.run mode (before ++ after)).files = l₁ ++ l₂ ∧
      c.run mode (before ++ file :: after) =
        { c.run mode (before ++ after) with
          files := l₁ ++ ⟨file.path, .failed e⟩ :: l₂
          failed := true } := by
  obtain ⟨l₁, l₂, hwith, hwithout⟩ := inPathOrder_insert before file after
  have hfile : c.outcomeOf file = ⟨file.path, .failed e⟩ := by rw [outcomeOf, h]
  have houtcomes : c.outcomes (before ++ after) = l₁.map c.outcomeOf ++ l₂.map c.outcomeOf := by
    rw [outcomes_eq_map, hwithout, List.map_append]
  refine ⟨l₁.map c.outcomeOf, l₂.map c.outcomeOf, ?_, ?_⟩
  · rw [run_files, houtcomes]
  · rw [run, run, houtcomes, outcomes_eq_map, hwith, List.map_append, List.map_cons, hfile]
    simp only [tally_failed]
    exact c.conclude_failed _ _ _

/-! ## The whole run -/

/-- The order of the files has no effect if their paths differ. -/
theorem run_perm {files' : List SourceFile} (hnodup : (files.map (·.path)).Nodup)
    (h : files'.Perm files) : c.run mode files' = c.run mode files := by
  have hnodup' : (files'.map (·.path)).Nodup := (h.map _).nodup_iff.2 hnodup
  have hperm : (c.outcomes files').Perm (c.outcomes files) := by
    refine (c.outcomes_perm files').trans ((h.map _).trans (c.outcomes_perm files).symm)
  have hsame : c.outcomes files' = c.outcomes files := by
    refine hperm.eq_of_pairwise ?_ (c.outcomes_sorted hnodup') (c.outcomes_sorted hnodup)
    intro a b _ _ hab hba
    exact absurd hba (String.lt_asymm hab)
  rw [run, run, hsame]

/-- A run is put together from the runs of its files on their own, taken in the stable order of
their paths. Results, writes, annotations and failures of steps come one after the other, and the
run fails if one of the single ones does. With padding the orbits that are kept come one after the
other too; without it they are those of the first file that has any.

A file on which a step fails does nothing to the others: its run is that of the other files, with an
entry for it and failed. And if all paths differ, the run as a whole, with its report and its
message, is the same in whichever order the files come. -/
theorem run_decomposes (c : Collector) (mode : Mode) (files : List SourceFile) :
    let whole := c.run mode files
    let single := (inPathOrder files).map fun file => c.run mode [file]
    whole.files = single.flatMap (·.files) ∧
    whole.writes = single.flatMap (·.writes) ∧
    whole.annotations = single.flatMap (·.annotations) ∧
    whole.errors = single.flatMap (·.errors) ∧
    whole.failed = single.any (·.failed) ∧
    (c.settings.paddedCell = true → whole.diagnostics = single.flatMap (·.diagnostics)) ∧
    (c.settings.paddedCell = false →
      whole.diagnostics = ((single.map (·.diagnostics)).find? (· ≠ [])).getD []) ∧
    (∀ before file after e, files = before ++ file :: after → c.processFile file = .failed e →
      ∃ l₁ l₂, (c.run mode (before ++ after)).files = l₁ ++ l₂ ∧
        whole =
          { c.run mode (before ++ after) with
            files := l₁ ++ ⟨file.path, .failed e⟩ :: l₂
            failed := true }) ∧
    ((files.map (·.path)).Nodup → ∀ files', files'.Perm files → c.run mode files' = whole) := by
  intro whole single
  refine ⟨?_, ?_, ?_, ?_, ?_, ?_, ?_, ?_, ?_⟩
  · rw [List.flatMap_map]
    simp only [whole, run_files, outcomes_singleton]
    rw [outcomes_eq_map, List.map_eq_flatMap]
  · rw [List.flatMap_map]
    simp only [whole, run_writes]
    exact c.outcomes_flatMap _ files
  · rw [List.flatMap_map]
    simp only [whole, run_annotations]
    rw [outcomes_flatMap, List.flatMap_assoc]
  · rw [List.flatMap_map]
    simp only [whole, RunOutcome.errors, run_files, outcomes_singleton]
    rw [outcomes_eq_map, List.map_eq_flatMap, List.filterMap_flatMap]
  · rw [List.any_map]
    simp only [whole, run_failed_eq_any]
    rw [outcomes_eq_map, List.any_map]
    congr 1
    funext file
    simp only [Function.comp_apply, run_failed_eq_any, outcomes_singleton, List.any_cons,
      List.any_nil, Bool.or_false]
  · intro hpadded
    rw [List.flatMap_map]
    exact c.diagnostics_padded hpadded
  · intro hpadded
    rw [List.map_map]
    exact c.diagnostics_unpadded hpadded
  · rintro before file after e rfl h
    exact c.run_failed_file h before after
  · intro hnodup files' hperm
    exact c.run_perm hnodup hperm

/-- A formatter that refuses some texts and turns others around. -/
def picky (padded : Bool) : Collector where
  formatter :=
    ⟨"misc", [⟨"refuse", fun s => if s = "bad" then .error "refused" else .ok s⟩,
      .ofFunction "turn" fun s => if s = "A" then "B" else "A"], .unix⟩
  settings := { paddedCell := padded }

/-- Two files that turn around, and one that is refused. -/
def pickyFiles : List SourceFile :=
  [⟨"a.txt", "B"⟩, ⟨"b.txt", "bad"⟩, ⟨"c.txt", "C"⟩]

/-- The refused file of `pickyFiles` changes nothing for the two others. With padding the orbits of
both are kept, without it only that of the first. -/
theorem run_decomposes_picky :
    (pickyFiles.map (·.path)).Nodup ∧
      ((picky true).run .apply pickyFiles).diagnostics.map (·.content) = ["A", "B", "A", "B"] ∧
      ((picky false).run .apply pickyFiles).diagnostics.map (·.name) =
        ["a.txt.misc1", "a.txt.misc2"] ∧
      (picky false).processFile ⟨"b.txt", "bad"⟩ = .failed ⟨"refuse", "refused"⟩ ∧
      ((picky false).run .apply pickyFiles).writes =
        ((picky false).run .apply [⟨"a.txt", "B"⟩, ⟨"c.txt", "C"⟩]).writes ∧
      (picky false).run .apply pickyFiles.reverse = (picky false).run .apply pickyFiles := by
  have hnodup : (pickyFiles.map (·.path)).Nodup := by decide
  have hrefused : (picky false).processFile ⟨"b.txt", "bad"⟩ =
      .failed ⟨"refuse", "refused"⟩ := rfl
  obtain ⟨-, -, -, -, -, hpadded, -⟩ := run_decomposes (picky true) .apply pickyFiles
  obtain ⟨-, -, -, -, -, -, hunpadded, hfailed, hperm⟩ :=
    run_decomposes (picky false) .apply pickyFiles
  have hsorted : inPathOrder pickyFiles = pickyFiles :=
    List.mergeSort_of_pairwise (by decide)
  refine ⟨hnodup, ?_, ?_, hrefused, ?_, hperm hnodup _ (List.reverse_perm pickyFiles)⟩
  · rw [hpadded rfl, hsorted, List.flatMap_map]
    simp only [run_diagnostics, outcomes_singleton]
    rfl
  · rw [hunpadded rfl, hsorted, List.map_map]
    simp only [Function.comp_def, run_diagnostics, outcomes_singleton]
    rfl
  · obtain ⟨l₁, l₂, -, hwhole⟩ :=
      hfailed [⟨"a.txt", "B"⟩] ⟨"b.txt", "bad"⟩ [⟨"c.txt", "C"⟩] _ rfl hrefused
    rw [hwhole, List.singleton_append]

end StableFormat.Collector
