import StableFormat.FileTree.Collect
import StableFormat.Proofs.FileTree.WriteBack
import StableFormat.Proofs.Pathname.Descendant

/-!
# Proofs: files that are named and files that are found

A file is worked on if it is named itself, or if a walk of a directory finds it. Both look for a glob
that covers one of its names. A walk also compares the globs with the path below the root, whatever
directory it starts from; but a file that is named is compared by its whole path, which the names
above the root belong to as well.
-/

namespace StableFormat.FileTree

open Pathname

variable {t : FileTree} {root path p input directory : Pathname} {place there : Place} {name : String}
  {names above below : List String} {globs excluded : List Glob} {inputs paths : List Pathname}

/-! ## Paths in a list -/

/-- The path is in the list. Paths with the same components are the same. -/
def Lists (paths : List Pathname) (path : Pathname) : Prop :=
  ∃ p ∈ paths, p.components = path.components

instance (paths : List Pathname) (path : Pathname) : Decidable (Lists paths path) :=
  inferInstanceAs (Decidable (∃ p ∈ paths, p.components = path.components))

theorem lists_cons : Lists (p :: paths) path ↔ p.components = path.components ∨ Lists paths path := by
  simp [Lists]

theorem lists_dropRepeated {kept : Option Pathname}
    (h : ∀ p ∈ kept, p.components ≠ path.components) :
    Lists (dropRepeated kept paths) path ↔ Lists paths path := by
  induction paths generalizing kept with
  | nil => rfl
  | cons p rest ih =>
    rw [dropRepeated, lists_cons]
    split
    · next hrepeated =>
      obtain ⟨q, hq, hsame⟩ := (Option.any_eq_true _ _).1 hrepeated
      have hne : p.components ≠ path.components := by
        rw [← of_decide_eq_true hsame]
        exact h q hq
      rw [ih h]
      simp [hne]
    · rw [lists_cons]
      by_cases hp : p.components = path.components
      · simp [hp]
      · have hrest : ∀ q ∈ some p, q.components ≠ path.components := by
          intro q hq
          rw [← Option.some.inj hq]
          exact hp
        rw [ih hrest]

theorem lists_collect (hne : inputs ≠ []) : Lists (t.collect root inputs excluded) path ↔
    ∃ input ∈ inputs, Lists (t.filesOf root excluded input) path := by
  have hgiven : inputs.isEmpty = false := by simpa using hne
  have hnone : ∀ p ∈ (none : Option Pathname), p.components ≠ path.components := by
    intro p hp
    cases hp
  rw [collect]
  simp only [hgiven, Bool.false_eq_true, if_false]
  rw [lists_dropRepeated hnone]
  constructor
  · rintro ⟨p, hp, hsame⟩
    obtain ⟨input, hinput, hmem⟩ := List.mem_flatMap.1 (List.mem_mergeSort.1 hp)
    exact ⟨input, hinput, p, hmem, hsame⟩
  · rintro ⟨input, hinput, p, hmem, hsame⟩
    exact ⟨p, List.mem_mergeSort.2 (List.mem_flatMap.2 ⟨input, hinput, hmem⟩), hsame⟩

theorem lists_collect_singleton : Lists (t.collect root [input] excluded) path ↔
    Lists (t.filesOf root excluded input) path := by
  rw [lists_collect (List.cons_ne_nil _ _)]
  simp

theorem filesOf_of_locate (h : t.locate (root.join input) = .ok place) :
    t.filesOf root excluded input =
      if t.isDirectory place then
        (t.filesBelow (root.join input) place).filter fun file =>
          !isExcluded (seenFrom root file) excluded
      else if isExcluded (root.join input) excluded then [] else [root.join input] := by
  delta filesOf
  simp only [h]

/-! ## Globs -/

def CoversText (globs : List Glob) (text : String) : Prop :=
  ∃ glob ∈ globs, glob.covers text = true

def CoversName (globs : List Glob) (names : List String) : Prop :=
  ∃ name ∈ names, CoversText globs name

instance (globs : List Glob) (text : String) : Decidable (CoversText globs text) :=
  inferInstanceAs (Decidable (∃ glob ∈ globs, glob.covers text = true))

instance (globs : List Glob) (names : List String) : Decidable (CoversName globs names) :=
  inferInstanceAs (Decidable (∃ name ∈ names, CoversText globs name))

theorem isExcluded_iff : isExcluded path globs = true ↔
    CoversText globs path.text ∨ CoversName globs (path.components.filterMap Component.name?) := by
  rw [isExcluded, List.any_eq_true]
  constructor
  · rintro ⟨glob, hglob, hexcludes⟩
    rw [Glob.excludes, Bool.or_eq_true, List.any_eq_true] at hexcludes
    rcases hexcludes with htext | ⟨name, hname, hcovers⟩
    · exact Or.inl ⟨glob, hglob, htext⟩
    · exact Or.inr ⟨name, hname, glob, hglob, hcovers⟩
  · intro h
    rcases h with ⟨glob, hglob, htext⟩ | ⟨name, hname, glob, hglob, hcovers⟩
    · refine ⟨glob, hglob, ?_⟩
      rw [Glob.excludes, htext, Bool.true_or]
    · refine ⟨glob, hglob, ?_⟩
      rw [Glob.excludes, Bool.or_eq_true, List.any_eq_true]
      exact Or.inr ⟨name, hname, hcovers⟩

theorem coversName_append : CoversName globs (above ++ below) ↔
    CoversName globs above ∨ CoversName globs below := by
  simp only [CoversName, List.mem_append, or_and_right, exists_or]

theorem filterMap_name?_normal (names : List String) :
    (names.map Component.normal).filterMap Component.name? = names := by
  rw [List.filterMap_map]
  exact List.filterMap_some

/-! ## Walking along names -/

theorem walk_names (hne : names ≠ []) (hnames : ∀ name ∈ names, IsName name)
    (h : t.walk place names = .ok there) :
    there = place ++ names ∧ (t.get? there).isSome = true := by
  induction names generalizing place with
  | nil => exact absurd rfl hne
  | cons name rest ih =>
    have hdirectory := isDirectory_of_walk h
    have hname := hnames name List.mem_cons_self
    rw [walk, if_neg (by simp [hdirectory]), if_neg (by simp [hname.isIdle]),
      if_neg hname.ne_parent] at h
    split at h
    · next node hnode =>
      cases rest with
      | nil =>
        obtain rfl := Except.ok.inj h
        refine ⟨rfl, ?_⟩
        rw [hnode]
        rfl
      | cons next others =>
        have hrest := ih (List.cons_ne_nil _ _)
          (fun other hother => hnames other (List.mem_cons_of_mem _ hother)) h
        refine ⟨?_, hrest.2⟩
        rw [hrest.1, List.append_assoc]
        rfl
    · cases h

/-- A descendant of a directory stands where its names lead to from the place of the directory. -/
theorem locate_descendant (hroot : root.isAbsolute = true) (hplace : t.locate root = .ok place)
    (hnames : ∀ name ∈ names, IsName name) :
    t.locate (root.descendant names) = .ok there ↔ t.walk place names = .ok there := by
  cases hsplit : names.getLast? with
  | none =>
    obtain rfl := List.getLast?_eq_none_iff.1 hsplit
    rw [descendant, List.foldl_nil, hplace, walk]
  | some name =>
    obtain ⟨init, rfl⟩ := List.getLast?_eq_some_iff.1 hsplit
    have hname := hnames name (List.mem_append_right _ (List.mem_singleton_self _))
    obtain ⟨front, hbody, hfront⟩ := body_descendant hroot (List.append_ne_nil_of_right_ne_nil init
      (List.cons_ne_nil name [])) hnames
    have hkept : (init ++ [name]).filter (!isIdle ·) = init ++ [name] := by
      rw [List.filter_eq_self]
      intro other hother
      simp [(hnames other hother).isIdle]
    -- Without its idle parts, the way begins with the way to the root.
    have hway : (front ++ (init ++ [name])).filter (!isIdle ·) =
        root.split.body.filter (!isIdle ·) ++ (init ++ [name]) := by
      rw [List.filter_append, hkept, filter_isIdle, hfront, body_filter hroot]
    have hwalk : t.walk [] (root.split.body.filter (!isIdle ·)) = .ok place := by
      rw [locate_of_isAbsolute hroot] at hplace
      exact walk_filter hplace
    rw [locate_of_isAbsolute (descendant_isAbsolute hroot), hbody]
    constructor
    · intro h
      have hfiltered := walk_filter h
      rwa [hway, walk_append hwalk] at hfiltered
    · intro h
      have hfiltered : t.walk [] ((front ++ init ++ [name]).filter (!isIdle ·)) = .ok there := by
        rw [List.append_assoc, hway, walk_append hwalk]
        exact h
      have hall := walk_of_filter hname.isIdle hfiltered
      rwa [List.append_assoc] at hall

/-- The files in a tree have names that a path can be made of. -/
def HasNames (t : FileTree) : Prop :=
  ∀ entry ∈ t.entries, ∀ name ∈ entry.1, IsName name

instance (t : FileTree) : Decidable t.HasNames :=
  inferInstanceAs (Decidable (∀ entry ∈ t.entries, ∀ name ∈ entry.1, IsName name))

theorem file_below (hroot : root.isAbsolute = true) (hdirectory : t.leadsToDirectory root = true)
    (hne : names ≠ []) (hnames : ∀ name ∈ names, IsName name)
    (hfile : t.leadsToFile (root.descendant names) = true) :
    ∃ place content, t.locate root = .ok place ∧ t.isDirectory place = true ∧
      t.get? (place ++ names) = some (.file content) := by
  rw [leadsToDirectory] at hdirectory
  rw [leadsToFile] at hfile
  split at hdirectory
  · next place hplace =>
    split at hfile
    · next there hthere =>
      have hwalk := (locate_descendant hroot hplace hnames).1 hthere
      obtain ⟨rfl, hsome⟩ := walk_names hne hnames hwalk
      obtain ⟨node, hnode⟩ := Option.isSome_iff_exists.1 hsome
      cases node with
      | directory => simp [isDirectory, hnode] at hfile
      | file content => exact ⟨place, content, hplace, hdirectory, hnode⟩
    · cases hfile
  · cases hdirectory

/-! ## What a walk finds -/

theorem mem_below {node : Node} :
    (names, node) ∈ t.below place ↔ names ≠ [] ∧ (place ++ names, node) ∈ t.entries := by
  rw [FileTree.below, List.mem_filterMap]
  constructor
  · rintro ⟨⟨key, node'⟩, hentry, hsome⟩
    dsimp only at hsome
    split at hsome
    · next hbelow =>
      obtain ⟨rest, rfl⟩ := List.isPrefixOf_iff_prefix.1 hbelow.1
      rw [List.drop_left] at hsome
      obtain ⟨rfl, rfl⟩ := Prod.mk.inj (Option.some.inj hsome)
      refine ⟨?_, hentry⟩
      rintro rfl
      exact hbelow.2 (List.append_nil place)
    · cases hsome
  · rintro ⟨hne, hentry⟩
    have hbelow : place.isPrefixOf (place ++ names) = true ∧ place ++ names ≠ place :=
      ⟨List.isPrefixOf_iff_prefix.2 (List.prefix_append _ _), by simpa using hne⟩
    refine ⟨(place ++ names, node), hentry, ?_⟩
    dsimp only
    rw [if_pos hbelow, List.drop_left]

theorem mem_filesBelow : p ∈ t.filesBelow directory place ↔
    ∃ names content, names ≠ [] ∧ (place ++ names, Node.file content) ∈ t.entries ∧
      names.length ≤ maxDepth ∧ directory.descendant names = p := by
  rw [filesBelow, List.mem_filterMap]
  constructor
  · rintro ⟨⟨names, node⟩, hmem, hsome⟩
    obtain ⟨hne, hentry⟩ := mem_below.1 hmem
    cases node with
    | directory => cases hsome
    | file content =>
      dsimp only at hsome
      split at hsome
      · next hdepth => exact ⟨names, content, hne, hentry, hdepth, Option.some.inj hsome⟩
      · cases hsome
  · rintro ⟨names, content, hne, hentry, hdepth, rfl⟩
    refine ⟨(names, .file content), mem_below.2 ⟨hne, hentry⟩, ?_⟩
    dsimp only
    rw [if_pos hdepth]
    rfl

/-- A walk finds the file by its path and by no other one with the same components. -/
theorem lists_filesBelow {keep : Pathname → Bool} {content : Content}
    (hnamed : t.HasNames) (hne : names ≠ []) (hdepth : names.length ≤ maxDepth)
    (hfile : t.get? (place ++ names) = some (.file content)) :
    Lists ((t.filesBelow directory place).filter keep) (directory.descendant names) ↔
      keep (directory.descendant names) = true := by
  have hentry : (place ++ names, Node.file content) ∈ t.entries := by
    have hkey : (place ++ names).isEmpty = false := by simp [hne]
    rw [get?, hkey] at hfile
    obtain ⟨before, after, hentries, -⟩ := List.lookup_eq_some_iff.1 hfile
    rw [hentries]
    exact List.mem_append_right _ List.mem_cons_self
  have hnames : ∀ {other content'}, (place ++ other, Node.file content') ∈ t.entries →
      ∀ name ∈ other, IsName name :=
    fun hmem name hname => hnamed _ hmem name (List.mem_append_right _ hname)
  constructor
  · rintro ⟨p, hp, hsame⟩
    obtain ⟨hfound, hkept⟩ := List.mem_filter.1 hp
    obtain ⟨other, content', -, hother, -, rfl⟩ := mem_filesBelow.1 hfound
    rw [components_descendant _ (hnames hother),
      components_descendant _ (hnames hentry)] at hsame
    have heq := congrArg (List.filterMap Component.name?) (List.append_cancel_left hsame)
    rw [filterMap_name?_normal, filterMap_name?_normal] at heq
    rwa [← heq]
  · intro hkept
    have hfound : directory.descendant names ∈ t.filesBelow directory place :=
      mem_filesBelow.2 ⟨names, content, hne, hentry, hdepth, rfl⟩
    exact ⟨_, List.mem_filter.2 ⟨hfound, hkept⟩, rfl⟩

/-- A walk of a directory finds a file unless a glob covers its path below the root or a name in it,
wherever the directory lies above the file. -/
theorem lists_walk (hroot : root.isAbsolute = true) (hnamed : t.HasNames) (hne : names ≠ [])
    (hnames : ∀ name ∈ names, IsName name) (hfile : t.leadsToFile (root.descendant names) = true)
    (hdirectory : t.leadsToDirectory (root.join input) = true) (hbelow : below ≠ [])
    (hbelowNames : ∀ name ∈ below, IsName name) (hdepth : below.length ≤ maxDepth)
    (hinput : (root.join input).descendant below = root.descendant names) :
    Lists (t.collect root [input] excluded) (root.descendant names) ↔
      ¬ CoversText excluded (Text.joinStrings '/' names) ∧ ¬ CoversName excluded names := by
  have habsolute : (root.join input).isAbsolute = true := join_isAbsolute hroot
  rw [← hinput] at hfile
  obtain ⟨place, content, hplace, hparent, hcontent⟩ :=
    file_below habsolute hdirectory hbelow hbelowNames hfile
  have hfound : Lists (t.filesOf root excluded input) (root.descendant names) ↔
      (!isExcluded (seenFrom root (root.descendant names)) excluded) = true := by
    rw [filesOf_of_locate hplace, if_pos hparent, ← hinput]
    exact lists_filesBelow hnamed hbelow hdepth hcontent
  have hseen : seenFrom root (root.descendant names) = ⟨Text.joinStrings '/' names⟩ := by
    rw [seenFrom, below?_descendant hroot hne hnames]
    rfl
  rw [lists_collect_singleton, hfound, hseen, Bool.not_eq_true', ← Bool.not_eq_true,
    isExcluded_iff, components_names hne hnames, filterMap_name?_normal, not_or]

/-- A file that is named is worked on unless a glob covers its whole path or a name in it, be it
above the root or below. -/
theorem lists_named (hnames : ∀ name ∈ names, IsName name)
    (hfile : t.leadsToFile (root.descendant names) = true)
    (hinput : root.join input = root.descendant names) :
    Lists (t.collect root [input] excluded) (root.descendant names) ↔
      ¬ CoversText excluded (root.descendant names).text ∧
        ¬ CoversName excluded (root.components.filterMap Component.name?) ∧
          ¬ CoversName excluded names := by
  have hexcluded : isExcluded (root.descendant names) excluded = true ↔
      CoversText excluded (root.descendant names).text ∨
        CoversName excluded (root.components.filterMap Component.name?) ∨
          CoversName excluded names := by
    rw [isExcluded_iff, components_descendant _ hnames, List.filterMap_append,
      filterMap_name?_normal, coversName_append]
  rw [← not_or, ← not_or, ← hexcluded, lists_collect_singleton]
  rw [leadsToFile, ← hinput] at hfile
  split at hfile
  · next place hplace =>
    have hplain : ¬ t.isDirectory place = true := by simpa using hfile
    rw [filesOf_of_locate hplace, if_neg hplain, hinput]
    cases isExcluded (root.descendant names) excluded with
    | true => simp [Lists]
    | false => simp [Lists]
  · cases hfile

/-- Walks find the same files, whatever directory they start from: the globs are compared with the
path below the root and with the names in it. A file that is named is compared by its whole path and
by all names in that. So naming a file comes to the same as a walk if a glob covers a name below the
root. If none does, it comes to the same exactly if the path below the root is covered whenever the
whole path or a name above the root is, and the other way round. -/
theorem collect_named_iff_walked (hroot : root.isAbsolute = true)
    (hdirectory : t.leadsToDirectory root = true) (hnamed : t.HasNames) (hne : names ≠ [])
    (hnames : ∀ name ∈ names, IsName name) (hdepth : names.length ≤ maxDepth)
    (hfile : t.leadsToFile (root.descendant names) = true) :
    (Lists (t.collect root [] excluded) (root.descendant names) ↔
      ¬ CoversText excluded (Text.joinStrings '/' names) ∧ ¬ CoversName excluded names) ∧
    (∀ input below, t.leadsToDirectory (root.join input) = true → below ≠ [] →
      (∀ name ∈ below, IsName name) → below.length ≤ maxDepth →
        (root.join input).descendant below = root.descendant names →
          (Lists (t.collect root [input] excluded) (root.descendant names) ↔
            Lists (t.collect root [] excluded) (root.descendant names))) ∧
    ∀ input, root.join input = root.descendant names →
      (Lists (t.collect root [input] excluded) (root.descendant names) ↔
        ¬ CoversText excluded (root.descendant names).text ∧
          ¬ CoversName excluded (root.components.filterMap Component.name?) ∧
            ¬ CoversName excluded names) ∧
      ((Lists (t.collect root [input] excluded) (root.descendant names) ↔
          Lists (t.collect root [] excluded) (root.descendant names)) ↔
        CoversName excluded names ∨
          ((CoversText excluded (root.descendant names).text ∨
              CoversName excluded (root.components.filterMap Component.name?)) ↔
            CoversText excluded (Text.joinStrings '/' names))) := by
  have hjoin : root.join root = root := by rw [join, if_pos hroot]
  have hwhole : Lists (t.collect root [root] excluded) (root.descendant names) ↔
      ¬ CoversText excluded (Text.joinStrings '/' names) ∧ ¬ CoversName excluded names := by
    apply lists_walk hroot hnamed hne hnames hfile _ hne hnames hdepth
    · rw [hjoin]
    · rwa [hjoin]
  -- Without inputs, the root is walked.
  have hwalked : Lists (t.collect root [] excluded) (root.descendant names) ↔
      ¬ CoversText excluded (Text.joinStrings '/' names) ∧ ¬ CoversName excluded names := hwhole
  refine ⟨hwalked, ?_, ?_⟩
  · intro input below hstart hbelow hbelowNames hlength hinput
    rw [lists_walk hroot hnamed hne hnames hfile hstart hbelow hbelowNames hlength hinput, hwalked]
  · intro input hinput
    have hdirect : Lists (t.collect root [input] excluded) (root.descendant names) ↔
        ¬ CoversText excluded (root.descendant names).text ∧
          ¬ CoversName excluded (root.components.filterMap Component.name?) ∧
            ¬ CoversName excluded names := lists_named hnames hfile hinput
    refine ⟨hdirect, ?_⟩
    rw [hdirect, hwalked, ← and_assoc, ← not_or]
    generalize (CoversText excluded (root.descendant names).text ∨
      CoversName excluded (root.components.filterMap Component.name?)) = outside
    by_cases hname : CoversName excluded names
    · simp [hname]
    · by_cases htext : CoversText excluded (Text.joinStrings '/' names)
      · simp [hname, htext]
      · simp [hname, htext]

/-- The globs of patterns, of which those with faults do not count. -/
def globsOf (patterns : List String) : List Glob :=
  patterns.filterMap fun pattern => (Glob.read pattern).toOption

/-- A glob that covers the name of the lower directory leaves out its note, however it is met. -/
theorem collect_named_iff_walked_twoNotes :
    ¬ Lists (twoNotes.collect ⟨"/work"⟩ [⟨"/"⟩] (globsOf ["s*b"]))
        (descendant ⟨"/work"⟩ ["sub", "note"]) ∧
      ¬ Lists (twoNotes.collect ⟨"/work"⟩ [⟨"sub"⟩] (globsOf ["s*b"]))
        (descendant ⟨"/work"⟩ ["sub", "note"]) ∧
      ¬ Lists (twoNotes.collect ⟨"/work"⟩ [⟨"sub/note"⟩] (globsOf ["s*b"]))
        (descendant ⟨"/work"⟩ ["sub", "note"]) := by
  have hroot : isAbsolute ⟨"/work"⟩ = true := by decide
  have hdirectory : twoNotes.leadsToDirectory ⟨"/work"⟩ = true := by decide
  have hnamed : twoNotes.HasNames := by decide
  have hnames : ∀ name ∈ ["sub", "note"], IsName name := by decide
  have hfile : twoNotes.leadsToFile (descendant ⟨"/work"⟩ ["sub", "note"]) = true := by
    decide +kernel
  have hcovered : CoversName (globsOf ["s*b"]) ["sub", "note"] := by decide +kernel
  obtain ⟨hwalked, hwalks, hdirect⟩ := @collect_named_iff_walked twoNotes ⟨"/work"⟩ ["sub", "note"]
    (globsOf ["s*b"]) hroot hdirectory hnamed (List.cons_ne_nil _ _) hnames (by decide) hfile
  have hwhole := hwalks ⟨"/"⟩ ["work", "sub", "note"] (by decide +kernel) (List.cons_ne_nil _ _)
    (by decide) (by decide) (by decide +kernel)
  have hsub := hwalks ⟨"sub"⟩ ["note"] (by decide +kernel) (List.cons_ne_nil _ _) (by decide)
    (by decide) (by decide +kernel)
  have hnote := (hdirect ⟨"sub/note"⟩ (by decide +kernel)).1
  have hnone : ¬ Lists (twoNotes.collect ⟨"/work"⟩ [] (globsOf ["s*b"]))
      (descendant ⟨"/work"⟩ ["sub", "note"]) := fun hlists => (hwalked.1 hlists).2 hcovered
  refine ⟨?_, ?_, ?_⟩
  · rwa [hwhole]
  · rwa [hsub]
  · intro hlists
    exact (hnote.1 hlists).2.2 hcovered

/-- The lower note is left out of a walk by a glob for what lies in its directory, but not if it is
named. By a glob for the root it is left out if it is named, but not in a walk. -/
theorem exclusion_depends_on_naming :
    (twoNotes.IsWellFormed ∧ twoNotes.HasNames ∧
      twoNotes.leadsToFile (descendant ⟨"/work"⟩ ["sub", "note"]) = true) ∧
    (¬ Lists (twoNotes.collect ⟨"/work"⟩ [] (globsOf ["sub/*"]))
        (descendant ⟨"/work"⟩ ["sub", "note"]) ∧
      Lists (twoNotes.collect ⟨"/work"⟩ [⟨"sub/note"⟩] (globsOf ["sub/*"]))
        (descendant ⟨"/work"⟩ ["sub", "note"])) ∧
    (Lists (twoNotes.collect ⟨"/work"⟩ [] (globsOf ["work"]))
        (descendant ⟨"/work"⟩ ["sub", "note"]) ∧
      ¬ Lists (twoNotes.collect ⟨"/work"⟩ [⟨"sub/note"⟩] (globsOf ["work"]))
        (descendant ⟨"/work"⟩ ["sub", "note"])) := by
  have hfile : twoNotes.leadsToFile (descendant ⟨"/work"⟩ ["sub", "note"]) = true := by
    decide +kernel
  have hnone : ∀ excluded, twoNotes.collect ⟨"/work"⟩ [] excluded =
      twoNotes.collect ⟨"/work"⟩ [⟨"/work"⟩] excluded := fun _ => rfl
  simp only [hnone, lists_collect_singleton]
  refine ⟨⟨⟨by decide, by decide⟩, by decide, hfile⟩, ⟨?_, ?_⟩, ?_, ?_⟩
  · decide +kernel
  · decide +kernel
  · decide +kernel
  · decide +kernel

end StableFormat.FileTree
