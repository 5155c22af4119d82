import Mathlib.Data.List.Induction
import StableFormat.Proofs.FileTree.Frame
import StableFormat.Proofs.Text.LineMap

/-!
# Proofs: files as seen from the workspace

A file below the root is announced by its path as seen from the workspace. Joined to the workspace, the
path leads back to the file if the root is the workspace or lies below it, whatever the root is called.
A root that lies elsewhere is named by its own path with `/` for every `\`, and so the path leads back
to the file only if the root has no `\` in its path.
-/

namespace StableFormat.Pathname

open FileTree

variable {p root workspace : Pathname} {rootPrefix relative : String} {below : List Component}

/-! ## Pieces and what they stand for -/

/-- Separators at the end stand for nothing. -/
theorem piecesOf_dropTrailing (cs : List Char) :
    piecesOf (String.ofList (Text.dropTrailing (· = '/') cs)) = piecesOf (String.ofList cs) := by
  induction cs using List.reverseRecOn with
  | nil => rfl
  | append_singleton cs c ih =>
    rw [Text.dropTrailing_concat]
    by_cases hc : c = '/'
    · have htext : String.ofList (cs ++ [c]) = String.ofList cs ++ "/" ++ "" := by
        apply String.toList_injective
        simp [hc]
      rw [if_pos (decide_eq_true hc), ih, htext, piecesOf_append_slash]
      exact (List.append_nil _).symm
    · rw [if_neg (by simpa using hc)]

/-- What can lie behind the root of an absolute path. -/
def IsDown (c : Component) : Prop :=
  c = .parent ∨ ∃ name, c = .normal name ∧ IsName name

theorem IsDown.componentOf?_text {c : Component} (h : IsDown c) :
    componentOf? c.text = some c ∧ '/' ∉ c.text.toList := by
  rcases h with rfl | ⟨name, rfl, hname⟩
  · exact ⟨rfl, by decide⟩
  · exact hname

/-- Components that are written down one after the other are found again, and the text does not
begin with the root. -/
theorem joined_components (h : ∀ c ∈ below, IsDown c) :
    piecesOf (Text.joinStrings '/' (below.map Component.text)) = below ∧
      isAbsolute ⟨Text.joinStrings '/' (below.map Component.text)⟩ = false := by
  have hparts : ∀ part ∈ below.map Component.text, '/' ∉ part.toList := by
    intro part hpart
    obtain ⟨c, hc, rfl⟩ := List.mem_map.1 hpart
    exact (h c hc).componentOf?_text.2
  have hsome : ∀ c ∈ below, (componentOf? ∘ Component.text) c = some c :=
    fun c hc => (h c hc).componentOf?_text.1
  constructor
  · rw [piecesOf_joinStrings hparts, List.filterMap_map, List.filterMap_congr hsome,
      List.filterMap_some]
  · by_cases hnil : below = []
    · subst hnil
      rfl
    rw [Bool.eq_false_iff]
    intro habsolute
    -- An absolute path has an empty first piece, which is the text of no component.
    obtain ⟨body, hbody, -⟩ := splitString_of_isAbsolute habsolute
    rw [Text.splitString_joinStrings (by simpa using hnil) hparts] at hbody
    obtain ⟨c, hc, hempty⟩ := List.mem_map.1 (hbody ▸ List.mem_cons_self :
      "" ∈ below.map Component.text)
    have hcomponent := (h c hc).componentOf?_text.1
    rw [hempty] at hcomponent
    cases hcomponent

/-! ## Paths behind a prefix -/

theorem piecesOf_workspacePath (rootPrefix relative : String) :
    piecesOf (workspacePath rootPrefix relative) = piecesOf rootPrefix ++ piecesOf relative := by
  unfold workspacePath
  by_cases hempty : rootPrefix.isEmpty = true
  · rw [if_pos hempty, String.isEmpty_iff.1 hempty]
    rfl
  · rw [if_neg hempty, piecesOf_append_slash, piecesOf_dropTrailing, String.ofList_toList]

/-- A path behind a prefix starts where the prefix starts. -/
theorem isAbsolute_workspacePath (hrelative : isAbsolute ⟨relative⟩ = false) :
    isAbsolute ⟨workspacePath rootPrefix relative⟩ = isAbsolute ⟨rootPrefix⟩ := by
  unfold workspacePath
  by_cases hempty : rootPrefix.isEmpty = true
  · rw [if_pos hempty, String.isEmpty_iff.1 hempty, hrelative]
    rfl
  · rw [if_neg hempty]
    cases htext : rootPrefix.toList with
    | nil =>
      rw [String.toList_eq_nil_iff.1 htext] at hempty
      exact absurd rfl hempty
    | cons c cs =>
      rw [Text.dropTrailing_cons]
      split
      · -- Nothing but separators: the one behind the prefix is left.
        next hall =>
        have hc : c = '/' := by
          rw [Bool.and_eq_true, decide_eq_true_eq] at hall
          exact hall.1
        simp [isAbsolute, htext, hc]
      · simp [isAbsolute, htext]

/-! ## The prefix of a root -/

/-- The path with `/` for every `\`. -/
def withSlashes (p : Pathname) : Pathname :=
  ⟨p.text.map fun c => if c = '\\' then '/' else c⟩

theorem withSlashes_isAbsolute (hp : p.isAbsolute = true) : p.withSlashes.isAbsolute = true := by
  obtain ⟨rest, hrest⟩ := toList_of_isAbsolute hp
  simp [isAbsolute, withSlashes, hrest]

theorem backslash_not_mem_withSlashes (p : Pathname) : '\\' ∉ p.withSlashes.text.toList := by
  rw [withSlashes, String.toList_map]
  intro hmem
  obtain ⟨c, -, hc⟩ := List.mem_map.1 hmem
  by_cases hback : c = '\\'
  · rw [if_pos hback] at hc
    exact absurd hc (by decide)
  · rw [if_neg hback] at hc
    exact hback hc

theorem withSlashes_eq_self (h : '\\' ∉ p.text.toList) : p.withSlashes = p := by
  have htext : p.text.map (fun c => if c = '\\' then '/' else c) = p.text := by
    apply String.toList_injective
    rw [String.toList_map]
    refine (List.map_congr_left ?_).trans (List.map_id _)
    intro c hc
    exact if_neg fun (hback : c = '\\') => h (hback ▸ hc)
  rw [withSlashes, htext]

/-- A `\` stands in a name, and the name is lost with it. -/
theorem piecesOf_withSlashes_iff (p : Pathname) :
    piecesOf p.withSlashes.text = piecesOf p.text ↔ '\\' ∉ p.text.toList := by
  have hne : '\\' ≠ '/' := by decide
  constructor
  · intro hpieces hback
    obtain ⟨segment, hsegment, hin⟩ := (Text.exists_mem_splitString hne).2 hback
    have hname : componentOf? segment = some (.normal segment) := by
      apply componentOf?_of_name
      · rintro rfl
        exact absurd hin (by decide)
      · rintro rfl
        exact absurd hin (by decide)
      · rintro rfl
        exact absurd hin (by decide)
    have hmem : Component.normal segment ∈ piecesOf p.withSlashes.text := by
      rw [hpieces]
      exact List.mem_filterMap.2 ⟨segment, hsegment, hname⟩
    obtain ⟨other, hother, hcomponent⟩ := List.mem_filterMap.1 hmem
    obtain rfl : segment = other := text_of_componentOf? hcomponent
    have hstill := (Text.exists_mem_splitString hne).1 ⟨_, hother, hin⟩
    exact backslash_not_mem_withSlashes p hstill
  · intro hback
    rw [withSlashes_eq_self hback]

theorem workspacePrefix_of_below (h : root.components = workspace.components ++ below) :
    workspacePrefix root workspace = Text.joinStrings '/' (below.map Component.text) := by
  have hprefix : workspace.components.isPrefixOf root.components = true :=
    List.isPrefixOf_iff_prefix.2 ⟨below, h.symm⟩
  rw [workspacePrefix, componentsBelow?, if_pos hprefix, h, List.drop_left]

theorem workspacePrefix_of_elsewhere (h : root.isBelow workspace = false) :
    workspacePrefix root workspace = root.withSlashes.text := by
  have hprefix : ¬ workspace.components.isPrefixOf root.components = true := by
    rw [← isBelow, h]
    exact Bool.false_ne_true
  rw [workspacePrefix, componentsBelow?, if_neg hprefix, withSlashes]

/-- Seen from a workspace above the root, the path goes down to the root by its components. -/
theorem child_workspacePath_of_below (hroot : root.isAbsolute = true)
    (hworkspace : workspace.isAbsolute = true) (hrelative : isAbsolute ⟨relative⟩ = false)
    (hbelow : root.isBelow workspace = true) :
    (workspace.child (workspacePath (workspacePrefix root workspace) relative)).components =
      (root.child relative).components := by
  obtain ⟨below, hcomponents⟩ := List.isPrefixOf_iff_prefix.1 hbelow
  have hdown : ∀ c ∈ below, IsDown c := by
    intro c hc
    apply mem_components_tail hroot
    rw [← hcomponents, components_of_isAbsolute hworkspace]
    exact List.mem_append_right _ hc
  obtain ⟨hpieces, hstart⟩ := joined_components hdown
  have hpath : isAbsolute ⟨workspacePath (workspacePrefix root workspace) relative⟩ = false := by
    rw [isAbsolute_workspacePath hrelative, workspacePrefix_of_below hcomponents.symm, hstart]
  rw [components_child_relative hworkspace hpath, piecesOf_workspacePath,
    workspacePrefix_of_below hcomponents.symm, hpieces, components_child_relative hroot hrelative,
    ← hcomponents, List.append_assoc]

/-- Seen from a workspace that does not lie above the root, the path is an absolute one. -/
theorem child_workspacePath_of_elsewhere (hroot : root.isAbsolute = true)
    (hrelative : isAbsolute ⟨relative⟩ = false) (helsewhere : root.isBelow workspace = false) :
    (workspace.child (workspacePath (workspacePrefix root workspace) relative)).components =
      (root.withSlashes.child relative).components := by
  have hslashes := withSlashes_isAbsolute hroot
  have hpath : isAbsolute ⟨workspacePath root.withSlashes.text relative⟩ = true := by
    rw [isAbsolute_workspacePath hrelative]
    exact hslashes
  rw [workspacePrefix_of_elsewhere helsewhere, child, join, if_pos hpath,
    components_eq_root_pieces hpath, piecesOf_workspacePath,
    components_child_relative hslashes hrelative, components_eq_root_pieces hslashes, List.cons_append]

/-! ## The place of the workspace -/

theorem components_pathOf {names : List String} (h : ∀ name ∈ names, IsName name) :
    (pathOf names).components = .root :: names.map .normal := by
  have habsolute : (pathOf names).isAbsolute = true := by
    simp [isAbsolute, pathOf]
  rw [components_eq_root_pieces habsolute, pathOf, ← String.empty_append (s := "/"),
    piecesOf_append_slash, piecesOf_joinStrings fun name hname => (h name hname).2,
    filterMap_names h]
  rfl

/-- The place of a path without `..` has the components of the path. -/
theorem components_canonical {t : FileTree} {place : Pathname} (hp : p.IsPlain)
    (h : t.canonical p = .ok place) : place.components = p.components := by
  rw [canonical] at h
  cases hlocate : t.locate p with
  | error e =>
    rw [hlocate] at h
    cases h
  | ok names =>
    rw [hlocate] at h
    obtain rfl : pathOf names = place := Except.ok.inj h
    obtain ⟨hcomponents, hnames⟩ := hp.components_eq
    rw [locate_eq_ok hlocate] at hcomponents hnames
    rw [components_pathOf hnames, hcomponents]

theorem workspacePrefix_congr {other : Pathname} (h : workspace.components = other.components) :
    workspacePrefix root workspace = workspacePrefix root other := by
  rw [workspacePrefix, workspacePrefix, componentsBelow?, componentsBelow?, h]

/-- Whether the workspace exists does not matter to the prefix. -/
theorem env_workspacePrefix (env : Environment) (t : FileTree) (root : Pathname)
    (hworkspace : workspace.IsPlain) :
    env.workspacePrefix t root workspace = workspacePrefix root workspace := by
  rw [Environment.workspacePrefix, absolute_eq_self env hworkspace.1]
  cases hcanonical : t.canonical workspace with
  | error e => rfl
  | ok place => exact workspacePrefix_congr (components_canonical hworkspace hcanonical)

/-- Joined to the workspace, the path that a file is announced by leads to the file exactly if the
root is the workspace, lies below it, or has no `\` in its path. From a root elsewhere it leads to
where the path with `/` for every `\` leads. -/
theorem workspacePath_leads_back_iff (env : Environment) (t : FileTree)
    (hroot : root.isAbsolute = true) (hworkspace : workspace.IsPlain)
    (hrelative : isAbsolute ⟨relative⟩ = false) :
    ((workspace.child
          (workspacePath (env.workspacePrefix t root workspace) relative)).components =
        (root.child relative).components ↔
      root.isBelow workspace = true ∨ '\\' ∉ root.text.toList) ∧
    (root.isBelow workspace = false →
      (workspace.child
          (workspacePath (env.workspacePrefix t root workspace) relative)).components =
        (root.withSlashes.child relative).components) := by
  rw [env_workspacePrefix env t root hworkspace]
  refine ⟨?_, child_workspacePath_of_elsewhere hroot hrelative⟩
  cases hbelow : root.isBelow workspace with
  | true =>
    have hback := child_workspacePath_of_below hroot hworkspace.1 hrelative hbelow
    exact ⟨fun _ => Or.inl rfl, fun _ => hback⟩
  | false =>
    have hslashes := withSlashes_isAbsolute hroot
    rw [child_workspacePath_of_elsewhere hroot hrelative hbelow,
      components_child_relative hslashes hrelative, components_child_relative hroot hrelative,
      List.append_cancel_right_eq, components_eq_root_pieces hslashes,
      components_eq_root_pieces hroot, List.cons_inj_right, piecesOf_withSlashes_iff]
    constructor
    · exact Or.inr
    · rintro (hfalse | hback)
      · cases hfalse
      · exact hback

/-- From the root of all files, a file is announced by its absolute path, which leads to it from the
workspace. -/
theorem workspacePath_leads_back_root :
    isAbsolute ⟨"/"⟩ = true ∧ IsPlain ⟨"/work"⟩ ∧ isAbsolute ⟨"src/note"⟩ = false ∧
      isBelow ⟨"/"⟩ ⟨"/work"⟩ = false ∧
      workspacePath (Environment.workspacePrefix ⟨⟨"/"⟩, []⟩ ⟨[]⟩ ⟨"/"⟩ ⟨"/work"⟩) "src/note" =
        "/src/note" ∧
      (child ⟨"/work"⟩ (workspacePath
          (Environment.workspacePrefix ⟨⟨"/"⟩, []⟩ ⟨[]⟩ ⟨"/"⟩ ⟨"/work"⟩) "src/note")).components =
        (child ⟨"/"⟩ "src/note").components := by
  have hroot : isAbsolute ⟨"/"⟩ = true := by decide
  have hworkspace : IsPlain ⟨"/work"⟩ := by decide +kernel
  have hrelative : isAbsolute ⟨"src/note"⟩ = false := by decide
  have hback := (workspacePath_leads_back_iff ⟨⟨"/"⟩, []⟩ ⟨[]⟩ hroot hworkspace hrelative).1
  refine ⟨hroot, hworkspace, hrelative, by decide +kernel, by decide +kernel, hback.2 ?_⟩
  exact Or.inr (by decide)

/-- A `\` in the name of a directory above the root is taken for a separator. -/
theorem workspacePath_splits_name :
    ¬ ∀ (env : Environment) (t : FileTree) (root workspace : Pathname) (relative : String),
      root.IsPlain → workspace.IsPlain → isAbsolute ⟨relative⟩ = false →
        (workspace.child
            (workspacePath (env.workspacePrefix t root workspace) relative)).components =
          (root.child relative).components := by
  intro hall
  have hback := hall ⟨⟨"/"⟩, []⟩ ⟨[]⟩ ⟨"/srv/a\\b"⟩ ⟨"/work"⟩ "note" (by decide +kernel)
    (by decide +kernel) (by decide)
  have hannounced : (child ⟨"/work"⟩ (workspacePath
      (Environment.workspacePrefix ⟨⟨"/"⟩, []⟩ ⟨[]⟩ ⟨"/srv/a\\b"⟩ ⟨"/work"⟩) "note")).components =
        [.root, .normal "srv", .normal "a", .normal "b", .normal "note"] := by
    decide +kernel
  have hfile : (child ⟨"/srv/a\\b"⟩ "note").components =
      [.root, .normal "srv", .normal "a\\b", .normal "note"] := by
    decide +kernel
  rw [hannounced, hfile] at hback
  exact absurd hback (by decide)

end StableFormat.Pathname
