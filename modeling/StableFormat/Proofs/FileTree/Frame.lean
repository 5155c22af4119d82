import StableFormat.Proofs.FileTree.Resolve
import StableFormat.Proofs.Pathname.Destination

/-!
# Proofs: what operations on files leave alone

Every operation changes files only at or below the place that its path leads to by its names. The
directories that are made on the way hold no files yet, so making them changes no file.
-/

namespace StableFormat.FileTree

open Pathname

variable {t t' t'' : FileTree} {place there : Place} {p path directory : Pathname}
  {parts : List String} {node : Node} {content : Content} {name : String}
  {touched other : Place → Prop}

/-- Every file of either tree that stands at a place outside of the touched ones is in both. -/
def ChangesOnly (touched : Place → Prop) (t t' : FileTree) : Prop :=
  ∀ place, ¬ touched place → t'.fileAt? place = t.fileAt? place

theorem ChangesOnly.refl (t : FileTree) : ChangesOnly touched t t :=
  fun _ _ => rfl

theorem ChangesOnly.trans (h : ChangesOnly touched t t') (h' : ChangesOnly touched t' t'') :
    ChangesOnly touched t t'' :=
  fun place hplace => (h' place hplace).trans (h place hplace)

theorem ChangesOnly.mono (h : ChangesOnly touched t t')
    (hsub : ∀ place, touched place → other place) : ChangesOnly other t t' :=
  fun place hplace => h place fun htouched => hplace (hsub place htouched)

/-! ## Entries -/

theorem lookup_filter (keep : Place → Bool) (entries : List (Place × Node))
    (h : keep place = true) :
    (entries.filter fun entry => keep entry.1).lookup place = entries.lookup place := by
  induction entries with
  | nil => rfl
  | cons entry rest ih =>
    obtain ⟨key, value⟩ := entry
    cases hkeep : keep key with
    | true =>
      simp only [List.filter_cons, hkeep, if_true, List.lookup_cons]
      rw [ih]
    | false =>
      have hne : (place == key) = false := by
        apply beq_false_of_ne
        rintro rfl
        rw [h] at hkeep
        cases hkeep
      simp only [List.filter_cons, hkeep, Bool.false_eq_true, if_false, List.lookup_cons, hne]
      exact ih

theorem lookup_replace (entries : List (Place × Node)) (h : place ≠ there) :
    (entries.map fun entry => if entry.1 = there then (there, node) else entry).lookup place =
      entries.lookup place := by
  induction entries with
  | nil => rfl
  | cons entry rest ih =>
    obtain ⟨key, value⟩ := entry
    rw [List.map_cons]
    by_cases hkey : key = there
    · have hne : (place == key) = false := beq_false_of_ne (hkey ▸ h)
      rw [if_pos hkey, List.lookup_cons, List.lookup_cons, beq_false_of_ne h, hne]
      exact ih
    · rw [if_neg hkey, List.lookup_cons, List.lookup_cons, ih]

theorem get?_set_of_ne (h : place ≠ there) : (t.set there node).get? place = t.get? place := by
  rw [get?, get?, set]
  split
  · rfl
  · split
    · exact lookup_replace _ h
    · rw [List.lookup_append, List.lookup_cons, beq_false_of_ne h]
      exact Option.or_none

theorem changesOnly_set : ChangesOnly (· = there) t (t.set there node) := by
  intro place hplace
  rw [fileAt?, fileAt?, get?_set_of_ne hplace]

/-- A new directory holds no files. -/
theorem fileAt?_set_directory (h : t.get? there = none) :
    (t.set there .directory).fileAt? place = t.fileAt? place := by
  by_cases hplace : place = there
  · subst hplace
    have hne : place.isEmpty = false := by
      rw [get?] at h
      split at h
      · cases h
      · next hempty => simpa using hempty
    have hlookup : t.entries.lookup place = none := by
      rwa [get?, hne] at h
    have hset : (t.set place .directory).get? place = some .directory := by
      rw [get?, hne, set, hlookup]
      simp [List.lookup_append, hlookup]
    rw [fileAt?, fileAt?, hset, h]
    rfl
  · exact changesOnly_set place hplace

theorem changesOnly_erase : ChangesOnly (there <+: ·) t (t.erase there) := by
  intro place hplace
  have hkeep : (!there.isPrefixOf place) = true := by
    rwa [Bool.not_eq_true', ← Bool.not_eq_true, List.isPrefixOf_iff_prefix]
  rw [fileAt?, fileAt?, get?, get?, erase,
    lookup_filter (fun place => !there.isPrefixOf place) _ hkeep]

theorem changesOnly_eraseBelow : ChangesOnly (there <+: ·) t (t.eraseBelow there) := by
  intro place hplace
  have hkeep : (!(there.isPrefixOf place && place != there)) = true := by
    have houtside : there.isPrefixOf place = false := by
      rwa [← Bool.not_eq_true, List.isPrefixOf_iff_prefix]
    rw [houtside]
    rfl
  rw [fileAt?, fileAt?, get?, get?, eraseBelow,
    lookup_filter (fun place => !(there.isPrefixOf place && place != there)) _ hkeep]

/-! ## Paths lead to their destinations -/

/-- Walking follows the names of the parts. -/
theorem walk_eq_ok (h : t.walk place parts = .ok there) :
    (parts.filterMap componentOf?).foldl Component.leadFrom place = there := by
  induction parts generalizing place with
  | nil => exact Except.ok.inj h
  | cons segment rest ih =>
    rw [walk] at h
    split at h
    · cases h
    · split at h
      · next hidle =>
        rw [List.filterMap_cons_none (componentOf?_eq_none_iff.2 hidle)]
        exact ih h
      · next hidle =>
        split at h
        · next hparent =>
          have hc : componentOf? segment = some .parent := by
            rw [componentOf?, if_neg hidle, if_pos hparent]
          rw [List.filterMap_cons_some hc]
          exact ih h
        · next hparent =>
          have hc : componentOf? segment = some (.normal segment) := by
            rw [componentOf?, if_neg hidle, if_neg hparent]
          rw [List.filterMap_cons_some hc]
          split at h
          · exact ih h
          · cases h

theorem partsOf_eq_ok (h : partsOf p = .ok parts) :
    p.destination = (parts.filterMap componentOf?).foldl Component.leadFrom [] := by
  rw [partsOf] at h
  split at h
  · next habsolute =>
    obtain rfl := Except.ok.inj h
    obtain ⟨body, -, hsplit⟩ := splitString_of_isAbsolute habsolute
    rw [destination, components, hsplit]
    rfl
  · cases h

theorem locate_eq_ok (h : t.locate p = .ok place) : p.destination = place := by
  rw [locate] at h
  cases hparts : partsOf p with
  | error e =>
    rw [hparts] at h
    cases h
  | ok parts =>
    rw [hparts] at h
    rw [partsOf_eq_ok hparts]
    exact walk_eq_ok h

/-- The root is no file. -/
theorem destination_of_leadsToFile (h : t.leadsToFile p = true) : p.destination ≠ [] := by
  rw [leadsToFile] at h
  split at h
  · next place hplace =>
    rw [locate_eq_ok hplace]
    rintro rfl
    rw [isDirectory, get?] at h
    cases h
  · cases h

/-- The name of a new file or directory leads one step further than the parts before it. -/
theorem locateLast_eq_ok (h : t.locateLast parts = .ok (there, some name))
    (hname : isNewName name = true) :
    (parts.filterMap componentOf?).foldl Component.leadFrom [] = there ++ [name] := by
  rw [locateLast] at h
  cases hwalk : t.walk [] parts.dropLast with
  | error e =>
    rw [hwalk] at h
    cases h
  | ok place =>
    rw [hwalk] at h
    simp only [bind, Except.bind] at h
    split at h
    · obtain ⟨rfl, hlast⟩ := Prod.mk.inj (Except.ok.inj h)
      obtain ⟨front, rfl⟩ := List.getLast?_eq_some_iff.1 hlast
      rw [List.dropLast_concat] at hwalk
      have hc : componentOf? name = some (.normal name) := by
        simp only [isNewName, Bool.and_eq_true, Bool.not_eq_true', Bool.or_eq_false_iff,
          decide_eq_false_iff_not] at hname
        rw [componentOf?, if_neg (by simp [hname.1.1.1]), if_neg hname.1.1.2]
      rw [List.filterMap_append, List.foldl_append, walk_eq_ok hwalk,
        List.filterMap_cons_some hc]
      rfl
    · cases h

/-! ## Operations -/

theorem makeDirectory_changesOnly (h : t.makeDirectory p = .ok t') :
    ChangesOnly touched t t' := by
  rw [makeDirectory] at h
  simp only [bind, Except.bind] at h
  split at h
  · cases h
  · split at h
    · cases h
    · split at h
      · split at h
        · cases h
        · next hnew =>
          obtain rfl := Except.ok.inj h
          intro place _
          apply fileAt?_set_directory
          simp only [Bool.or_eq_true, not_or, Option.not_isSome_iff_eq_none] at hnew
          exact hnew.2
      · cases h

theorem makeAll_changesOnly (directories : List Pathname) :
    ChangesOnly touched t (t.makeAll directories).1 := by
  induction directories generalizing t with
  | nil => exact .refl t
  | cons p above ih =>
    rw [makeAll]
    split
    · exact .refl t
    · split
      · next hmade => exact makeDirectory_changesOnly hmade
      · -- The directory above is missing, so it is made first.
        have habove := ih (t := t)
        split
        · next hfailed =>
          rw [hfailed] at habove
          exact habove
        · next hmade =>
          rw [hmade] at habove
          split
          · next hlast => exact habove.trans (makeDirectory_changesOnly hlast)
          · exact habove
      · exact .refl t

theorem writeFile_changesOnly (h : t.writeFile p content = .ok t') :
    ChangesOnly (· = p.destination) t t' := by
  rw [writeFile] at h
  simp only [bind, Except.bind] at h
  split at h
  · cases h
  · next parts hparts =>
    split at h
    · cases h
    · next last hlast =>
      split at h
      · split at h
        · cases h
        · next there name hname =>
          obtain rfl := Except.ok.inj h
          have hnew : isNewName name = true := by
            simp only [Bool.or_eq_true, not_or, Bool.not_eq_true', Bool.not_eq_false] at hname
            exact hname.1
          have hdestination := locateLast_eq_ok hlast hnew
          rw [← partsOf_eq_ok hparts] at hdestination
          rw [hdestination]
          exact changesOnly_set
      · cases h

theorem writeDeep_changesOnly :
    ChangesOnly (· = p.destination) t (t.writeDeep p content).1 := by
  rw [writeDeep]
  dsimp only
  split
  · split
    · next hwritten => exact writeFile_changesOnly hwritten
    · exact .refl t
  · next directory hparent =>
    have hmade : ChangesOnly (· = p.destination) t (t.makeAll directory.ancestors).1 :=
      makeAll_changesOnly directory.ancestors
    split
    · next hok =>
      rw [hok] at hmade
      split
      · next hwritten => exact hmade.trans (writeFile_changesOnly hwritten)
      · exact hmade
    · next hfailed =>
      rw [hfailed] at hmade
      exact hmade

theorem removeDirectory_eq_ok (h : t.removeDirectory p = .ok t') : t' = t.erase p.destination := by
  rw [removeDirectory] at h
  simp only [bind, Except.bind] at h
  split at h
  · cases h
  · next place hplace =>
    split at h
    · cases h
    · split at h
      · cases h
      · split at h
        · cases h
        · split at h
          · cases h
          · rw [locate_eq_ok hplace]
            exact (Except.ok.inj h).symm

theorem clearDirectory_changesOnly :
    ChangesOnly (directory.destination <+: ·) t (t.clearDirectory directory).1 := by
  rw [clearDirectory]
  split
  · exact .refl t
  · next place hplace =>
    split
    · have hemptied : ChangesOnly (directory.destination <+: ·) t (t.eraseBelow place) := by
        rw [locate_eq_ok hplace]
        exact changesOnly_eraseBelow
      dsimp only
      split
      · next hremoved =>
        rw [removeDirectory_eq_ok hremoved]
        exact hemptied.trans changesOnly_erase
      · exact hemptied
      · exact hemptied
    · exact .refl t

theorem writeDiagnostics_changesOnly {files : List DiagnosticFile}
    (h : ∀ file ∈ files, touched (directory.child file.name).destination) :
    ChangesOnly touched t (t.writeDiagnostics directory files).1 := by
  induction files generalizing t with
  | nil => exact .refl t
  | cons file rest ih =>
    have hfirst : ChangesOnly touched t
        (t.writeDeep (directory.child file.name) (.text file.content)).1 := by
      apply writeDeep_changesOnly.mono
      rintro place rfl
      exact h file List.mem_cons_self
    have hrest := fun t => ih (t := t) fun other hother => h other (List.mem_cons_of_mem _ hother)
    unfold writeDiagnostics
    split
    · next hwritten =>
      rw [hwritten] at hfirst
      exact hfirst.trans (hrest _)
    · next hfailed =>
      rw [hfailed] at hfirst
      exact hfirst

end StableFormat.FileTree
