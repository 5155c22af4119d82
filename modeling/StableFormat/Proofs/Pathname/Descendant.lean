import StableFormat.Proofs.Pathname.Destination

/-!
# Proofs: paths of what lies below a directory

A walk of a directory names what it finds by adding one name after the other to the path of the
directory. The names can be taken off again: seen from the directory, what it finds has a path that
is made of these names alone, however the path of the directory is written.
-/

namespace StableFormat.Pathname

variable {p q : Pathname} {name : String} {names : List String}

/-- What a walk of a directory calls the place that some names lead to from there. -/
def descendant (p : Pathname) (names : List String) : Pathname :=
  names.foldl child p

theorem joinStrings_singleton (name : String) : Text.joinStrings '/' [name] = name := by
  rw [Text.joinStrings, List.map_singleton, Text.joinWithChar, String.ofList_toList]

theorem joinStrings_cons (name : String) (hne : names ≠ []) :
    Text.joinStrings '/' (name :: names) = name ++ "/" ++ Text.joinStrings '/' names := by
  apply String.toList_injective
  rw [Text.joinStrings, Text.joinStrings, List.map_cons,
    Text.joinWithChar_cons (by simpa using hne)]
  simp

theorem IsName.isAbsolute (h : IsName name) : isAbsolute ⟨name⟩ = false := by
  have hrelative := isAbsolute_names (List.cons_ne_nil name [])
    (fun other hother => List.mem_singleton.1 hother ▸ h)
  rwa [joinStrings_singleton] at hrelative

theorem descendant_isAbsolute (hp : p.isAbsolute = true) :
    (p.descendant names).isAbsolute = true := by
  induction names generalizing p with
  | nil => exact hp
  | cons name rest ih => exact ih (join_isAbsolute hp)

/-- Names with separators between them are the components of a relative path. -/
theorem components_names (hne : names ≠ []) (hnames : ∀ name ∈ names, IsName name) :
    components ⟨Text.joinStrings '/' names⟩ = names.map .normal := by
  have hpieces := splitString_names hne hnames
  have hstart : (split ⟨Text.joinStrings '/' names⟩).start = none := by
    cases names with
    | nil => exact absurd rfl hne
    | cons name rest =>
      have hidle := (hnames name List.mem_cons_self).isIdle
      simp only [isIdle, Bool.or_eq_false_iff, decide_eq_false_iff_not] at hidle
      rw [start_split (p := ⟨Text.joinStrings '/' (name :: rest)⟩) hpieces,
        if_neg (by simp [hidle.1]), if_neg hidle.2]
      intro hempty
      rw [show Text.joinStrings '/' (name :: rest) = "" from hempty] at hpieces
      have hname : "" = name := (List.cons.inj hpieces).1
      simp [← hname] at hidle
  rw [components_eq_start_pieces, hstart, piecesOf, hpieces, filterMap_names hnames]
  rfl

/-- A path with one more name has one more component, wherever it starts. -/
theorem components_child (p : Pathname) (hname : IsName name) :
    (p.child name).components = p.components ++ [.normal name] := by
  have hpieces : piecesOf name = [.normal name] := by
    rw [piecesOf, Text.splitString_of_notMem hname.2, List.filterMap_cons_some hname.1]
    rfl
  have hrelative := hname.isAbsolute
  by_cases hempty : p.text = ""
  · obtain rfl : p = ⟨""⟩ := congrArg Pathname.mk hempty
    have hchild : child ⟨""⟩ name = ⟨name⟩ := by
      simp [child, join, hrelative]
    have hcomponents := components_names (List.cons_ne_nil name []) (by simpa using hname)
    rw [joinStrings_singleton] at hcomponents
    rw [hchild, hcomponents]
    rfl
  by_cases hends : p.text.toList.getLast? = some '/'
  · -- The separator at the end is the one between the two.
    obtain ⟨front, hfront⟩ := List.getLast?_eq_some_iff.1 hends
    have htext : p.text = String.ofList front ++ "/" ++ "" := by
      apply String.toList_injective
      simp [hfront]
    have hchild : p.child name = ⟨String.ofList front ++ "/" ++ name⟩ := by
      rw [child, join, if_neg (by simp [hrelative]), if_pos (by simp [hends]), htext]
      simp
    by_cases hroot : front = []
    · have hp : p.isAbsolute = true := by
        simp [isAbsolute, hfront, hroot]
      rw [components_child_relative hp hrelative, hpieces]
    · have hne : String.ofList front ≠ "" := by
        intro heq
        exact hroot (by simpa using congrArg String.toList heq)
      obtain rfl : p = ⟨String.ofList front ++ "/" ++ ""⟩ := congrArg Pathname.mk htext
      rw [hchild, components_append_slash hne, components_append_slash hne, hpieces]
      exact congrArg (· ++ [Component.normal name]) (List.append_nil _).symm
  · have hchild : p.child name = ⟨p.text ++ "/" ++ name⟩ := by
      rw [child, join, if_neg (by simp [hrelative]), if_neg (by simp [hempty, hends])]
    rw [hchild, components_append_slash hempty, hpieces]

theorem components_descendant (p : Pathname) (hnames : ∀ name ∈ names, IsName name) :
    (p.descendant names).components = p.components ++ names.map .normal := by
  induction names generalizing p with
  | nil => exact (List.append_nil _).symm
  | cons name rest ih =>
    have hname := hnames name List.mem_cons_self
    have hrest : ∀ other ∈ rest, IsName other :=
      fun other hother => hnames other (List.mem_cons_of_mem _ hother)
    have hstep := ih (p.child name) hrest
    rw [components_child p hname, List.append_assoc] at hstep
    exact hstep

/-! ## All names at once -/

/-- What is joined to a path goes behind a text that does not depend on it. -/
theorem exists_join_eq (p : Pathname) :
    ∃ front, ∀ q : Pathname, q.isAbsolute = false → p.join q = ⟨front ++ q.text⟩ := by
  by_cases hends : p.text.isEmpty || p.text.toList.getLast? = some '/'
  · refine ⟨p.text, ?_⟩
    intro q hq
    rw [join, if_neg (by simp [hq]), if_pos hends]
  · refine ⟨p.text ++ "/", ?_⟩
    intro q hq
    rw [join, if_neg (by simp [hq]), if_neg hends]

/-- A name at the end of a path is followed by one separator. -/
theorem child_join (hname : IsName name) (hq : q.isAbsolute = false) :
    (p.child name).join q = p.join ⟨name ++ "/" ++ q.text⟩ := by
  obtain ⟨front, hfront⟩ := exists_join_eq p
  have hchild : p.child name = ⟨front ++ name⟩ := hfront ⟨name⟩ hname.isAbsolute
  have hne := hname.toList_ne_nil
  have hnonempty : (front ++ name).isEmpty = false := by
    rw [Bool.eq_false_iff]
    intro hempty
    have hboth := String.append_eq_empty_iff.1 (String.isEmpty_iff.1 hempty)
    exact hne (String.toList_eq_nil_iff.2 hboth.2)
  have hends : (front ++ name).toList.getLast? ≠ some '/' := by
    intro hlast
    rw [String.toList_append, List.getLast?_append, List.getLast?_eq_some_getLast hne] at hlast
    have hslash : name.toList.getLast hne = '/' := Option.some.inj hlast
    exact hname.2 (hslash ▸ List.getLast_mem hne)
  have hjoined : Pathname.join ⟨front ++ name⟩ q = ⟨front ++ name ++ "/" ++ q.text⟩ := by
    rw [join, if_neg (by simp [hq]), if_neg (by rw [hnonempty]; simpa using hends)]
  have hwhole : isAbsolute ⟨name ++ "/" ++ q.text⟩ = false := by
    have hrelative := hname.isAbsolute
    rw [isAbsolute, decide_eq_false_iff_not] at hrelative ⊢
    cases hlist : name.toList with
    | nil => exact absurd hlist hne
    | cons c cs => simpa [hlist] using hrelative
  rw [hchild, hjoined, hfront _ hwhole]
  simp only [String.append_assoc]

/-- The names may be put together first. -/
theorem descendant_eq_join (hne : names ≠ []) (hnames : ∀ name ∈ names, IsName name) :
    p.descendant names = p.join ⟨Text.joinStrings '/' names⟩ := by
  induction names generalizing p with
  | nil => exact absurd rfl hne
  | cons name rest ih =>
    cases hrest : rest with
    | nil =>
      rw [joinStrings_singleton]
      rfl
    | cons next others =>
      have hrestNe : rest ≠ [] := by
        rw [hrest]
        exact List.cons_ne_nil _ _
      have hrestNames : ∀ other ∈ rest, IsName other :=
        fun other hother => hnames other (List.mem_cons_of_mem _ hother)
      have hstep := ih (p := p.child name) hrestNe hrestNames
      have hname := hnames name List.mem_cons_self
      rw [child_join hname (isAbsolute_names hrestNe hrestNames)] at hstep
      rw [← hrest, joinStrings_cons name hrestNe]
      exact hstep

/-! ## Seen from the directory -/

/-- Idle parts before, between and behind the components that are taken off do not matter. -/
theorem dropComponents_append (front rest : List String) :
    (dropComponents (front.filterMap componentOf?).length (front ++ rest)).dropWhile isIdle =
      rest.dropWhile isIdle := by
  induction front with
  | nil =>
    rw [List.nil_append, List.filterMap_nil, List.length_nil, dropComponents]
  | cons segment front ih =>
    cases hc : componentOf? segment with
    | none =>
      have hidle := componentOf?_eq_none_iff.1 hc
      rw [List.filterMap_cons_none hc, List.cons_append]
      cases hcount : (front.filterMap componentOf?).length with
      | zero =>
        rw [hcount, dropComponents] at ih
        rw [dropComponents, List.dropWhile_cons_of_pos hidle]
        exact ih
      | succ count =>
        rw [hcount] at ih
        rw [dropComponents, if_pos hidle]
        exact ih
    | some c =>
      have hidle := isIdle_of_componentOf? hc
      rw [List.filterMap_cons_some hc, List.cons_append, List.length_cons, dropComponents,
        if_neg (by simp [hidle])]
      exact ih

theorem dropWhile_isIdle_names (hnames : ∀ name ∈ names, IsName name) :
    names.dropWhile isIdle = names := by
  cases names with
  | nil => rfl
  | cons name rest =>
    have hidle := (hnames name List.mem_cons_self).isIdle
    exact List.dropWhile_cons_of_neg (by simp [hidle])

theorem dropIdleEnd_names (hnames : ∀ name ∈ names, IsName name) : dropIdleEnd names = names := by
  have hreversed : ∀ name ∈ names.reverse, IsName name :=
    fun name hname => hnames name (List.mem_reverse.1 hname)
  rw [dropIdleEnd, dropWhile_isIdle_names hreversed, List.reverse_reverse]

/-- The parts of the path of a descendant end with the names that lead to it. -/
theorem body_descendant (hp : p.isAbsolute = true) (hne : names ≠ [])
    (hnames : ∀ name ∈ names, IsName name) :
    ∃ front, (p.descendant names).split = ⟨some .root, front ++ names⟩ ∧
      front.filterMap componentOf? = p.components.tail := by
  have hrelative := isAbsolute_names hne hnames
  obtain ⟨body, hbody, hsplit⟩ := splitString_of_isAbsolute (descendant_isAbsolute hp)
  obtain ⟨front, hfront, hpieces, hcomponents⟩ := splitString_join hp hrelative
  rw [descendant_eq_join hne hnames] at hbody hsplit
  rw [hbody, splitString_names hne hnames] at hpieces
  cases front with
  | nil => exact absurd rfl hfront
  | cons first front =>
    obtain ⟨hfirst, htail⟩ := List.cons.inj hpieces
    refine ⟨front, ?_, ?_⟩
    · rw [descendant_eq_join hne hnames, hsplit, htail]
      rfl
    · -- The first piece stands for the root, which is no component of its own.
      rw [← hfirst, List.filterMap_cons_none rfl] at hcomponents
      rw [hcomponents, components_of_isAbsolute hp]
      rfl

/-- Seen from the directory, a descendant has the path that is made of its names. -/
theorem below?_descendant (hp : p.isAbsolute = true) (hne : names ≠ [])
    (hnames : ∀ name ∈ names, IsName name) :
    (p.descendant names).below? p = some ⟨Text.joinStrings '/' names⟩ := by
  obtain ⟨front, hsplit, hfront⟩ := body_descendant hp hne hnames
  have hbelow : (p.descendant names).isBelow p = true := by
    rw [isBelow, components_descendant p hnames]
    exact List.isPrefixOf_iff_prefix.2 (List.prefix_append _ _)
  have hcount : p.components.length = (front.filterMap componentOf?).length + 1 := by
    rw [hfront, components_of_isAbsolute hp]
    rfl
  rw [below?, if_pos hbelow]
  simp only [hcount, hsplit, Option.isSome_some, if_true, dropComponents_append,
    dropWhile_isIdle_names hnames, dropIdleEnd_names hnames]
  rfl

end StableFormat.Pathname
