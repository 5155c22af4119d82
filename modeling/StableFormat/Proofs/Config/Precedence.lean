import StableFormat.Proofs.Config.Merging
import StableFormat.Proofs.FileTree.Frame
import StableFormat.Proofs.Pathname.Ancestors
import StableFormat.Proofs.Pathname.Descendant

/-!
# Proofs: which configuration file wins

The files on the way from the root of all files to where the work is done are listed from the root on,
so that the settings of the nearer file win. The file of the user comes before them all, and it is not
listed again if the user's directory lies on the way itself. It then keeps its place at the head of the
list, and the files of the directories above it win over it.
-/

namespace StableFormat.Config

open Pathname PartialConfig

variable {env : Environment} {t : FileTree} {start directory d f g : Pathname}
  {known paths : List Pathname}

/-- The configuration file of the user. -/
def userFile? (env : Environment) (t : FileTree) : Option Pathname :=
  env.home?.bind (fileIn? env t)

/-- The configuration files on the way from the root of all files to a directory. -/
def filesOnTheWay (env : Environment) (t : FileTree) (directory : Pathname) : List Pathname :=
  directory.ancestors.reverse.filterMap (fileIn? env t)

/-- The first path names the configuration file of a directory above that of the second one. -/
def StandsAbove (f g : Pathname) : Prop :=
  ∃ above below, f.components = above ++ [.normal fileName] ∧
    g.components = below ++ [.normal fileName] ∧ above <+: below ∧ above ≠ below

/-- The files are those of the user and of the directories on the way to a directory, and they stand in
their order. -/
structure ListsInOrder (env : Environment) (t : FileTree) (directory : Pathname)
    (files : List Pathname) : Prop where
  sound : ∀ f ∈ files, t.leadsToFile (env.absolute f) = true ∧
    (userFile? env t = some f ∨
      ∃ above, above <+: directory.components ∧ f.components = above ++ [.normal fileName])
  user : ∀ f, userFile? env t = some f → f ∈ files
  /-- No directory is left out; from an absolute one, the way leads to the root of all files. -/
  complete : ∀ above, above <+: directory.components →
    (above = [] → directory.isAbsolute = false) →
      ∃ d : Pathname, d.components = above ∧
        ∀ f, fileIn? env t d = some f → ∃ g ∈ files, g.components = f.components
  /-- No path is listed twice. -/
  distinct : (files.map (·.components)).Nodup
  /-- No file is listed twice, as long as files are found by absolute paths that never go back. -/
  apart : (∀ home, env.home? = some home → home.IsPlain) → directory.IsPlain →
    (files.map fun f => t.locate (env.absolute f)).Nodup
  /-- The file of the directory above comes first, unless the other one is that of the user. -/
  ordered : ∀ f ∈ files, ∀ g ∈ files, StandsAbove f g →
    (userFile? env t ≠ some g → [f, g].Sublist files) ∧
      (userFile? env t = some g → [g, f].Sublist files)

/-! ## The directory to start from -/

/-- The way always ends somewhere: what has no parent is no file. -/
theorem exists_startDirectory (env : Environment) (t : FileTree) (start : Pathname) :
    ∃ directory, startDirectory env t start = some directory := by
  rw [startDirectory]
  by_cases hfile : t.leadsToFile (env.absolute start) = true
  · rw [if_pos hfile]
    cases hparent : start.parent? with
    | some above => exact ⟨above, rfl⟩
    | none =>
      have hdestination := FileTree.destination_of_leadsToFile hfile
      rcases components_of_parent?_eq_none hparent with hnil | hroot
      · obtain rfl : start = ⟨""⟩ := congrArg Pathname.mk (text_of_components_eq_nil hnil)
        exact absurd rfl hdestination
      · have habsolute : start.isAbsolute = true := isAbsolute_of_head (by rw [hroot]; rfl)
        rw [absolute_eq_self env habsolute, destination, hroot] at hdestination
        exact absurd rfl hdestination
  · rw [if_neg hfile]
    split
    · exact ⟨_, rfl⟩
    · exact ⟨_, rfl⟩

/-! ## The files that are found -/

theorem isName_fileName : IsName fileName := by
  decide +kernel

theorem fileIn?_eq_some_iff :
    fileIn? env t d = some f ↔ d.child fileName = f ∧ t.leadsToFile (env.absolute f) = true := by
  rw [fileIn?]
  split
  · next hfile =>
    rw [Option.some_inj]
    constructor
    · rintro rfl
      exact ⟨rfl, hfile⟩
    · exact And.left
  · next hfile =>
    constructor
    · intro h
      cases h
    · rintro ⟨rfl, h⟩
      exact absurd h hfile

theorem components_of_fileIn? (h : fileIn? env t d = some f) :
    f.components = d.components ++ [.normal fileName] := by
  rw [← (fileIn?_eq_some_iff.1 h).1, components_child d isName_fileName]

theorem mem_filesOnTheWay :
    f ∈ filesOnTheWay env t directory ↔ ∃ d ∈ directory.ancestors, fileIn? env t d = some f := by
  rw [filesOnTheWay, List.mem_filterMap]
  simp only [List.mem_reverse]

/-- The nearer file comes later. -/
theorem pairwise_filesOnTheWay (env : Environment) (t : FileTree) (directory : Pathname) :
    (filesOnTheWay env t directory).Pairwise fun f g =>
      f.components.length < g.components.length := by
  refine (List.pairwise_reverse.2 (pairwise_ancestors directory)).filterMap _ ?_
  intro above below hlength f hf g hg
  rw [components_of_fileIn? hf, components_of_fileIn? hg, List.length_append, List.length_append]
  omega

theorem distinct_filesOnTheWay (env : Environment) (t : FileTree) (directory : Pathname) :
    (filesOnTheWay env t directory).Pairwise fun f g => f.components ≠ g.components := by
  refine (pairwise_filesOnTheWay env t directory).imp ?_
  intro f g hlength hsame
  rw [hsame] at hlength
  exact lt_irrefl _ hlength

/-- Of different paths, those are added that are not known. -/
theorem foldl_addNew (h : paths.Pairwise fun f g => f.components ≠ g.components) :
    paths.foldl addNew known =
      known ++ paths.filter fun f => !known.any (·.components = f.components) := by
  induction paths generalizing known with
  | nil => exact (List.append_nil known).symm
  | cons f rest ih =>
    rw [List.pairwise_cons] at h
    obtain ⟨hfirst, hrest⟩ := h
    rw [List.foldl_cons, addNew]
    cases hknown : known.any (·.components = f.components) with
    | true =>
      rw [if_pos rfl, ih hrest, List.filter_cons_of_neg (by simp [hknown])]
    | false =>
      rw [if_neg Bool.false_ne_true, ih hrest, List.filter_cons_of_pos (by simp [hknown]),
        List.append_assoc, List.singleton_append]
      -- The path that was added is none of the others.
      congr 2
      refine List.filter_congr ?_
      intro g hg
      have hother : decide (f.components = g.components) = false :=
        decide_eq_false (hfirst g hg)
      rw [List.any_append, List.any_cons, List.any_nil, hother, Bool.or_false, Bool.or_false]

/-- The file of the user comes first, then the others on the way. -/
theorem discover_eq (h : startDirectory env t start = some directory) :
    discover env t start = (userFile? env t).toList ++
      (filesOnTheWay env t directory).filter fun f =>
        !(userFile? env t).toList.any (·.components = f.components) := by
  rw [discover, h]
  exact foldl_addNew (distinct_filesOnTheWay env t directory)

theorem discover_of_noUserFile (h : startDirectory env t start = some directory)
    (huser : userFile? env t = none) : discover env t start = filesOnTheWay env t directory := by
  rw [discover_eq h, huser]
  exact List.filter_eq_self.2 fun _ _ => rfl

theorem discover_of_userFile (h : startDirectory env t start = some directory)
    (huser : userFile? env t = some f) :
    discover env t start =
      f :: (filesOnTheWay env t directory).filter fun g => f.components ≠ g.components := by
  rw [discover_eq h, huser]
  simp

theorem nodup_components_discover (h : startDirectory env t start = some directory) :
    ((discover env t start).map (·.components)).Nodup := by
  have hway : ((filesOnTheWay env t directory).map (·.components)).Nodup := by
    rw [List.Nodup, List.pairwise_map]
    exact distinct_filesOnTheWay env t directory
  cases huser : userFile? env t with
  | none =>
    rw [discover_of_noUserFile h huser]
    exact hway
  | some f =>
    rw [discover_of_userFile h huser, List.map_cons, List.nodup_cons]
    refine ⟨?_, hway.sublist (List.filter_sublist.map _)⟩
    intro hmem
    obtain ⟨g, hg, hsame⟩ := List.mem_map.1 hmem
    exact of_decide_eq_true (List.mem_filter.1 hg).2 hsame.symm

theorem mem_discover (h : startDirectory env t start = some directory)
    (hf : f ∈ discover env t start) :
    userFile? env t = some f ∨ ∃ d ∈ directory.ancestors, fileIn? env t d = some f := by
  rw [discover_eq h, List.mem_append, Option.mem_toList] at hf
  rcases hf with huser | hway
  · exact Or.inl huser
  · exact Or.inr (mem_filesOnTheWay.1 (List.mem_filter.1 hway).1)

theorem exists_mem_discover (h : startDirectory env t start = some directory)
    (hd : d ∈ directory.ancestors) (hf : fileIn? env t d = some f) :
    ∃ g ∈ discover env t start, g.components = f.components := by
  rw [discover_eq h]
  cases hknown : (userFile? env t).toList.any (·.components = f.components) with
  | true =>
    obtain ⟨g, hg, hsame⟩ := List.any_eq_true.1 hknown
    exact ⟨g, List.mem_append_left _ hg, of_decide_eq_true hsame⟩
  | false =>
    have hway : f ∈ filesOnTheWay env t directory := mem_filesOnTheWay.2 ⟨d, hd, hf⟩
    refine ⟨f, List.mem_append_right _ (List.mem_filter.2 ⟨hway, ?_⟩), rfl⟩
    rw [hknown]
    rfl

/-! ## The order of the files -/

theorem StandsAbove.length_lt (h : StandsAbove f g) : f.components.length < g.components.length := by
  obtain ⟨above, below, hf, hg, habove, hne⟩ := h
  have hlength : above.length ≠ below.length := fun heq => hne (habove.eq_of_length heq)
  have hle := habove.length_le
  rw [hf, hg, List.length_append, List.length_append]
  omega

theorem pair_sublist_of_pairwise
    (h : paths.Pairwise fun f g => f.components.length < g.components.length) (hf : f ∈ paths)
    (hg : g ∈ paths) (hlength : f.components.length < g.components.length) :
    [f, g].Sublist paths := by
  induction paths with
  | nil => cases hf
  | cons first rest ih =>
    rw [List.pairwise_cons] at h
    obtain ⟨hfirst, hrest⟩ := h
    rcases List.mem_cons.1 hf with rfl | hfrest
    · rcases List.mem_cons.1 hg with rfl | hgrest
      · exact absurd hlength (lt_irrefl _)
      · exact (List.singleton_sublist.2 hgrest).cons_cons f
    · rcases List.mem_cons.1 hg with rfl | hgrest
      · exact absurd (hfirst f hfrest) hlength.asymm
      · exact (ih hrest hfrest hgrest).cons first

/-- Of two files, the one of the directory above comes first, unless the other one is that of the
user. -/
theorem pair_sublist_discover (hf : f ∈ discover env t start) (hg : g ∈ discover env t start)
    (h : StandsAbove f g) :
    (userFile? env t ≠ some g → [f, g].Sublist (discover env t start)) ∧
      (userFile? env t = some g → [g, f].Sublist (discover env t start)) := by
  obtain ⟨directory, hdirectory⟩ := exists_startDirectory env t start
  have hlength := h.length_lt
  have hway := pairwise_filesOnTheWay env t directory
  cases huser : userFile? env t with
  | none =>
    rw [discover_of_noUserFile hdirectory huser] at hf hg ⊢
    refine ⟨fun _ => pair_sublist_of_pairwise hway hf hg hlength, ?_⟩
    intro hsome
    cases hsome
  | some u =>
    rw [discover_of_userFile hdirectory huser] at hf hg ⊢
    rw [Ne, Option.some_inj]
    constructor
    · -- The nearer file is on the way, behind the file of the user and those of directories above.
      intro hother
      have hgway := List.mem_of_ne_of_mem (Ne.symm hother) hg
      rcases List.mem_cons.1 hf with rfl | hfway
      · exact (List.singleton_sublist.2 hgway).cons_cons f
      · exact (pair_sublist_of_pairwise (hway.filter _) hfway hgway hlength).cons u
    · -- The nearer file heads the list.
      rintro rfl
      have hne : f ≠ u := by
        rintro rfl
        exact lt_irrefl _ hlength
      exact (List.singleton_sublist.2 (List.mem_of_ne_of_mem hne hf)).cons_cons u

/-! ## What the order comes to -/

/-- What a file gives counts more than what the files before it give. -/
theorem lastGiven_of_pair {α : Type} {key : PartialConfig → Option α} {p : PartialConfig}
    (h : [f, g].Sublist paths) (hg : settingsIn? env t g = some p)
    (hkey : (key p).isSome = true) :
    lastGiven key (paths.filterMap (settingsIn? env t)) =
      lastGiven key ((paths.erase f).filterMap (settingsIn? env t)) := by
  obtain ⟨before, later, rfl, hf, hrest⟩ := List.cons_sublist_iff.1 h
  have hp : p ∈ later.filterMap (settingsIn? env t) :=
    List.mem_filterMap.2 ⟨g, List.singleton_sublist.1 hrest, hg⟩
  rw [List.erase_append_left _ hf, List.filterMap_append, List.filterMap_append,
    lastGiven_append hp hkey, lastGiven_append hp hkey]

/-- What the last file says that says anything counts, with the default behind all of them. -/
theorem discovered_eq_applyPartial (env : Environment) (t : FileTree) (start : Pathname) :
    discovered env t start = default.applyPartial
      (together ((discover env t start).filterMap (settingsIn? env t))) := by
  rw [discovered_eq_merge, merge, foldl_applyPartial]

theorem mem_formats_discovered {format : FormatConfig} :
    format ∈ (discovered env t start).formats ↔
      lastGiven (tableNamed format.name)
        ((discover env t start).filterMap (settingsIn? env t)) = some format := by
  rw [lastGiven_tableNamed, discovered_eq_merge, formats_merge, mem_foldl_mergeFormat]

/-! ## Places -/

theorem isPlain_of_fileIn? (hd : d.IsPlain) (h : fileIn? env t d = some f) : f.IsPlain := by
  obtain rfl := (fileIn?_eq_some_iff.1 h).1
  refine ⟨join_isAbsolute hd.1, ?_⟩
  rw [components_child d isName_fileName, List.mem_append, not_or]
  exact ⟨hd.2, by simp⟩

/-- Found by paths without `..`, no file is listed twice. -/
theorem nodup_places_discover (h : startDirectory env t start = some directory)
    (hhome : ∀ home, env.home? = some home → home.IsPlain) (hdirectory : directory.IsPlain) :
    ((discover env t start).map fun f => t.locate (env.absolute f)).Nodup := by
  have hplain : ∀ f ∈ discover env t start, f.IsPlain ∧ t.leadsToFile f = true := by
    intro f hf
    have hfound : ∃ d, d.IsPlain ∧ fileIn? env t d = some f := by
      rcases mem_discover h hf with huser | ⟨d, hd, hin⟩
      · obtain ⟨home, hsome, hin⟩ := Option.bind_eq_some_iff.1 huser
        exact ⟨home, hhome home hsome, hin⟩
      · exact ⟨d, hdirectory.of_mem_ancestors hd, hin⟩
    obtain ⟨d, hd, hin⟩ := hfound
    have hf := isPlain_of_fileIn? hd hin
    have hfile := (fileIn?_eq_some_iff.1 hin).2
    rw [absolute_eq_self env hf.1] at hfile
    exact ⟨hf, hfile⟩
  have hnodup := nodup_components_discover h
  rw [List.Nodup, List.pairwise_map] at hnodup ⊢
  refine hnodup.imp_of_mem ?_
  intro f g hf hg hne hsame
  obtain ⟨hfplain, hfile⟩ := hplain f hf
  obtain ⟨hgplain, -⟩ := hplain g hg
  rw [absolute_eq_self env hfplain.1, absolute_eq_self env hgplain.1] at hsame
  cases hlocate : t.locate f with
  | error e =>
    rw [FileTree.leadsToFile, hlocate] at hfile
    cases hfile
  | ok place =>
    apply hne
    rw [hfplain.components_eq.1, hgplain.components_eq.1, FileTree.locate_eq_ok hlocate,
      FileTree.locate_eq_ok (hsame.symm.trans hlocate)]

theorem listsInOrder_discover (h : startDirectory env t start = some directory) :
    ListsInOrder env t directory (discover env t start) where
  sound f hf := by
    rcases mem_discover h hf with huser | ⟨d, hd, hin⟩
    · obtain ⟨home, -, hin⟩ := Option.bind_eq_some_iff.1 huser
      exact ⟨(fileIn?_eq_some_iff.1 hin).2, Or.inl huser⟩
    · exact ⟨(fileIn?_eq_some_iff.1 hin).2,
        Or.inr ⟨d.components, prefix_of_mem_ancestors hd, components_of_fileIn? hin⟩⟩
  user f hf := by
    rw [discover_eq h]
    exact List.mem_append_left _ (Option.mem_toList.2 hf)
  complete above habove hroot := by
    obtain ⟨d, hd, hcomponents⟩ := exists_mem_ancestors habove hroot
    exact ⟨d, hcomponents, fun f hf => exists_mem_discover h hd hf⟩
  distinct := nodup_components_discover h
  apart := nodup_places_discover h
  ordered f hf g hg := pair_sublist_discover hf hg

/-- The files that are found for a path are listed in order, from the root of all files on, except that
the file of the user comes before them all. The configuration for the path is made of all their
settings, and what a file gives counts instead of what any file before it gives. So the nearer file
wins, unless it is that of the user. -/
theorem discover_nearer_later (env : Environment) (t : FileTree) (start : Pathname) :
    let files := discover env t start
    let settings := files.filterMap (settingsIn? env t)
    (∃ directory, startDirectory env t start = some directory ∧
      ListsInOrder env t directory files) ∧
    discovered env t start = default.applyPartial (together settings) ∧
    (∀ format, format ∈ (discovered env t start).formats ↔
      lastGiven (tableNamed format.name) settings = some format) ∧
    ∀ (α : Type) (key : PartialConfig → Option α) f g p, [f, g].Sublist files →
      settingsIn? env t g = some p → (key p).isSome = true →
        lastGiven key settings = lastGiven key ((files.erase f).filterMap (settingsIn? env t)) := by
  intro files settings
  obtain ⟨directory, hdirectory⟩ := exists_startDirectory env t start
  refine ⟨⟨directory, hdirectory, listsInOrder_discover hdirectory⟩, ?_, ?_, ?_⟩
  · exact discovered_eq_applyPartial env t start
  · intro format
    exact mem_formats_discovered
  · intro α key f g p hfg hp hkey
    exact lastGiven_of_pair hfg hp hkey

/-- A file for a directory and one for a directory below it. -/
def layered : FileTree where
  entries := [(["srv"], .directory), (["srv", "padcell.toml"], .file (.text "padded_cell=false")),
    (["srv", "u"], .directory), (["srv", "u", "padcell.toml"], .file (.text "padded_cell=true"))]

theorem standsAbove_layered : StandsAbove ⟨"/srv/padcell.toml"⟩ ⟨"/srv/u/padcell.toml"⟩ := by
  refine ⟨[.root, .normal "srv"], [.root, .normal "srv", .normal "u"], ?_, ?_, ?_, ?_⟩
  · decide +kernel
  · decide +kernel
  · exact List.prefix_append _ _
  · decide

theorem settingsIn?_layered (env : Environment) :
    settingsIn? env layered ⟨"/srv/padcell.toml"⟩ = some { paddedCell := some false } ∧
      settingsIn? env layered ⟨"/srv/u/padcell.toml"⟩ = some { paddedCell := some true } := by
  have hupper : layered.readText ⟨"/srv/padcell.toml"⟩ = .ok "padded_cell=false" := by rfl
  have hlower : layered.readText ⟨"/srv/u/padcell.toml"⟩ = .ok "padded_cell=true" := by rfl
  have hfalse : Toml.readStatements ("padded_cell=false".toList.length + 1) []
      "padded_cell=false".toList = .ok [.entry ⟨[], "padded_cell"⟩ (.boolean false)] := by
    rfl
  have htrue : Toml.readStatements ("padded_cell=true".toList.length + 1) []
      "padded_cell=true".toList = .ok [.entry ⟨[], "padded_cell"⟩ (.boolean true)] := by
    rfl
  constructor
  · rw [settingsIn?, absolute_eq_self env (by decide), hupper, Except.toOption, Option.bind_some,
      PartialConfig.read, read_of_statements (by rfl) (by decide) hfalse rfl]
    rfl
  · rw [settingsIn?, absolute_eq_self env (by decide), hlower, Except.toOption, Option.bind_some,
      PartialConfig.read, read_of_statements (by rfl) (by decide) htrue rfl]
    rfl

/-- If neither file is that of the user, the lower one comes later and wins. -/
theorem discover_nearer_later_layered :
    discover ⟨⟨"/"⟩, []⟩ layered ⟨"/srv/u"⟩ =
        [⟨"/srv/padcell.toml"⟩, ⟨"/srv/u/padcell.toml"⟩] ∧
      [⟨"/srv/padcell.toml"⟩, ⟨"/srv/u/padcell.toml"⟩].Sublist
        (discover ⟨⟨"/"⟩, []⟩ layered ⟨"/srv/u"⟩) ∧
      ((discover ⟨⟨"/"⟩, []⟩ layered ⟨"/srv/u"⟩).map fun f =>
        layered.locate (Environment.absolute ⟨⟨"/"⟩, []⟩ f)).Nodup ∧
      (discovered ⟨⟨"/"⟩, []⟩ layered ⟨"/srv/u"⟩).paddedCell = true := by
  have hfiles : discover ⟨⟨"/"⟩, []⟩ layered ⟨"/srv/u"⟩ =
      [⟨"/srv/padcell.toml"⟩, ⟨"/srv/u/padcell.toml"⟩] := by
    decide +kernel
  have hstart : startDirectory ⟨⟨"/"⟩, []⟩ layered ⟨"/srv/u"⟩ = some ⟨"/srv/u"⟩ := by
    decide +kernel
  have hlower := (settingsIn?_layered ⟨⟨"/"⟩, []⟩).2
  obtain ⟨⟨directory, hdirectory, hlists⟩, hmerged, -, hwins⟩ :=
    discover_nearer_later ⟨⟨"/"⟩, []⟩ layered ⟨"/srv/u"⟩
  obtain rfl : directory = ⟨"/srv/u"⟩ := Option.some.inj (hdirectory.symm.trans hstart)
  have hpair := (hlists.ordered ⟨"/srv/padcell.toml"⟩ (by rw [hfiles]; decide) ⟨"/srv/u/padcell.toml"⟩
    (by rw [hfiles]; decide) standsAbove_layered).1 (by decide)
  have hgiven := hwins Bool (·.paddedCell) _ _ _ hpair hlower rfl
  refine ⟨hfiles, hpair, hlists.apart (by decide) (by decide +kernel), ?_⟩
  have herase : ([⟨"/srv/padcell.toml"⟩, ⟨"/srv/u/padcell.toml"⟩] : List Pathname).erase
      ⟨"/srv/padcell.toml"⟩ = [⟨"/srv/u/padcell.toml"⟩] := by
    decide
  have hlast (settings : List PartialConfig) :
      ((default : Config).applyPartial (together settings)).paddedCell =
        (lastGiven (·.paddedCell) settings).getD (default : Config).paddedCell := rfl
  rw [hmerged, hlast, hgiven, hfiles, herase, List.filterMap_cons_some hlower]
  rfl

/-- The file of the user lies below another one, comes before it and loses. -/
theorem discover_userFile_early :
    discover ⟨⟨"/"⟩, [("HOME", "/srv/u")]⟩ layered ⟨"/srv/u"⟩ =
        [⟨"/srv/u/padcell.toml"⟩, ⟨"/srv/padcell.toml"⟩] ∧
      (discovered ⟨⟨"/"⟩, [("HOME", "/srv/u")]⟩ layered ⟨"/srv/u"⟩).paddedCell = false ∧
      ¬ ∀ (env : Environment) (t : FileTree) (start directory f g : Pathname),
        (∀ home, env.home? = some home → home.IsPlain) → directory.IsPlain →
        startDirectory env t start = some directory →
        f ∈ discover env t start → g ∈ discover env t start →
        (∃ d ∈ directory.ancestors, fileIn? env t d = some f) →
        (∃ d ∈ directory.ancestors, fileIn? env t d = some g) →
        StandsAbove f g → [f, g].Sublist (discover env t start) := by
  have hfiles : discover ⟨⟨"/"⟩, [("HOME", "/srv/u")]⟩ layered ⟨"/srv/u"⟩ =
      [⟨"/srv/u/padcell.toml"⟩, ⟨"/srv/padcell.toml"⟩] := by
    decide +kernel
  refine ⟨hfiles, ?_, ?_⟩
  · obtain ⟨hupper, hlower⟩ := settingsIn?_layered ⟨⟨"/"⟩, [("HOME", "/srv/u")]⟩
    rw [discovered_eq_applyPartial, hfiles, List.filterMap_cons_some hlower,
      List.filterMap_cons_some hupper]
    rfl
  · intro hall
    have hpair := hall ⟨⟨"/"⟩, [("HOME", "/srv/u")]⟩ layered ⟨"/srv/u"⟩ ⟨"/srv/u"⟩
      ⟨"/srv/padcell.toml"⟩ ⟨"/srv/u/padcell.toml"⟩ (by decide +kernel) (by decide +kernel)
      (by decide +kernel) (by rw [hfiles]; decide) (by rw [hfiles]; decide)
      ⟨⟨"/srv"⟩, by decide +kernel, by decide +kernel⟩
      ⟨⟨"/srv/u"⟩, by decide +kernel, by decide +kernel⟩ standsAbove_layered
    rw [hfiles] at hpair
    exact absurd hpair (by decide)

end StableFormat.Config
