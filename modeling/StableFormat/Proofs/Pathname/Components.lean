import StableFormat.Pathname.Basic
import StableFormat.Proofs.Text.Lines

/-!
# Proofs: the components of path names

The components of an absolute path are the root and what its pieces between separators stand for.
Read this way, a path that is joined to another one has the components of both, whatever separators
the two texts begin or end with.
-/

namespace StableFormat.Pathname

variable {p q root path : Pathname} {segment name relative : String} {c : Component}

/-! ## Pieces and components -/

theorem text_of_componentOf? (h : componentOf? segment = some c) : c.text = segment := by
  rw [componentOf?] at h
  split at h
  · cases h
  · split at h
    · next heq =>
      cases h
      exact heq.symm
    · cases h
      rfl

theorem componentOf?_eq_none_iff : componentOf? segment = none ↔ isIdle segment = true := by
  rw [componentOf?]
  split
  · next hidle => simp [hidle]
  · next hidle => split <;> simp [hidle]

theorem isIdle_of_componentOf? (h : componentOf? segment = some c) : isIdle segment = false := by
  rw [Bool.eq_false_iff]
  intro hidle
  rw [componentOf?_eq_none_iff.2 hidle] at h
  cases h

/-- A piece is the parent directory or a name of its own. -/
theorem componentOf?_cases (h : componentOf? segment = some c) :
    c = .parent ∨ c = .normal segment := by
  rw [componentOf?] at h
  split at h
  · cases h
  · split at h
    · cases h
      exact Or.inl rfl
    · cases h
      exact Or.inr rfl

/-- The pieces of a path that are not idle are the texts of its components. -/
theorem filter_isIdle (segments : List String) :
    segments.filter (!isIdle ·) = (segments.filterMap componentOf?).map Component.text := by
  induction segments with
  | nil => rfl
  | cons segment rest ih =>
    cases hc : componentOf? segment with
    | none =>
      have hidle := componentOf?_eq_none_iff.1 hc
      rw [List.filterMap_cons_none hc, List.filter_cons_of_neg (by simp [hidle]), ih]
    | some c =>
      have hidle := isIdle_of_componentOf? hc
      rw [List.filterMap_cons_some hc, List.filter_cons_of_pos (by simp [hidle]), ih,
        List.map_cons, text_of_componentOf? hc]

/-! ## Absolute paths -/

theorem toList_of_isAbsolute (h : p.isAbsolute = true) : ∃ rest, p.text.toList = '/' :: rest := by
  have hhead : p.text.toList.head? = some '/' := of_decide_eq_true h
  exact List.head?_eq_some_iff.1 hhead

theorem splitString_of_isAbsolute (h : p.isAbsolute = true) :
    ∃ body, Text.splitString '/' p.text = "" :: body ∧ p.split = ⟨some .root, body⟩ := by
  obtain ⟨rest, hrest⟩ := toList_of_isAbsolute h
  have hpieces : Text.splitString '/' p.text = "" :: Text.splitString '/' (String.ofList rest) := by
    rw [Text.splitString_of_append (s := "") (t := String.ofList rest)]
    · rfl
    · simp [hrest]
  refine ⟨_, hpieces, ?_⟩
  cases hbody : Text.splitString '/' (String.ofList rest) with
  | nil => exact absurd hbody (Text.splitString_ne_nil '/' _)
  | cons second body =>
    rw [split, hpieces, hbody]
    rfl

theorem components_of_isAbsolute (h : p.isAbsolute = true) :
    p.components = .root :: (Text.splitString '/' p.text).filterMap componentOf? := by
  obtain ⟨body, hpieces, hsplit⟩ := splitString_of_isAbsolute h
  rw [components, hsplit, hpieces]
  rfl

theorem isAbsolute_of_split (h : p.split.start = some .root) : p.isAbsolute = true := by
  rw [split] at h
  split at h
  · next first second rest hpieces =>
    split at h
    · next hempty =>
      have hfirst : first = "" := String.isEmpty_iff.1 hempty
      rw [hfirst] at hpieces
      exact decide_eq_true (Text.head?_of_splitString (List.cons_ne_nil _ _) hpieces)
    · split at h <;> cases h
  · cases h
  · cases h

/-- What an absolute path is an initial part of, is absolute. -/
theorem isAbsolute_of_head (h : p.components.head? = some .root) : p.isAbsolute = true := by
  cases hstart : p.split.start with
  | some c =>
    rw [components, hstart] at h
    obtain rfl : c = .root := Option.some.inj h
    exact isAbsolute_of_split hstart
  | none =>
    rw [components, hstart] at h
    have hmem : Component.root ∈ p.split.body.filterMap componentOf? := List.mem_of_head? h
    obtain ⟨segment, -, hsegment⟩ := List.mem_filterMap.1 hmem
    rcases componentOf?_cases hsegment with heq | heq <;> cases heq

/-- A text that is a name in a path. -/
def IsName (name : String) : Prop :=
  componentOf? name = some (.normal name) ∧ '/' ∉ name.toList

instance (name : String) : Decidable (IsName name) :=
  inferInstanceAs (Decidable (_ ∧ _))

theorem IsName.isIdle (h : IsName name) : isIdle name = false :=
  isIdle_of_componentOf? h.1

theorem IsName.ne_parent (h : IsName name) : name ≠ ".." := by
  intro heq
  have hname := h.1
  rw [heq] at hname
  cases hname

theorem IsName.toList_ne_nil (h : IsName name) : name.toList ≠ [] := by
  intro hnil
  have hidle := h.isIdle
  rw [String.toList_eq_nil_iff.1 hnil] at hidle
  cases hidle

/-- Behind the root of an absolute path there are only parent directories and names. -/
theorem mem_components_tail (h : p.isAbsolute = true) (hc : c ∈ p.components.tail) :
    c = .parent ∨ ∃ name, c = .normal name ∧ IsName name := by
  rw [components_of_isAbsolute h, List.tail_cons] at hc
  obtain ⟨segment, hsegment, hof⟩ := List.mem_filterMap.1 hc
  rcases componentOf?_cases hof with heq | heq
  · exact Or.inl heq
  · rw [heq] at hof
    exact Or.inr ⟨segment, heq, hof, Text.not_mem_of_splitString hsegment⟩

/-! ## Joining -/

theorem join_isAbsolute (hp : p.isAbsolute = true) : (p.join q).isAbsolute = true := by
  obtain ⟨rest, hrest⟩ := toList_of_isAbsolute hp
  rw [join]
  split
  · assumption
  · split <;> simp [isAbsolute, hrest]

/-- The pieces of a joined path are those of its parts, but for an idle one where they meet. -/
theorem splitString_join (hp : p.isAbsolute = true) (hq : q.isAbsolute = false) :
    ∃ front, front ≠ [] ∧
      Text.splitString '/' (p.join q).text = front ++ Text.splitString '/' q.text ∧
      front.filterMap componentOf? = (Text.splitString '/' p.text).filterMap componentOf? := by
  obtain ⟨rest, hrest⟩ := toList_of_isAbsolute hp
  have hnonempty : p.text.isEmpty = false := by
    rw [Bool.eq_false_iff]
    intro hempty
    rw [String.isEmpty_iff.1 hempty] at hrest
    cases hrest
  by_cases hends : p.text.toList.getLast? = some '/'
  · -- The separator between the two is the one at the end of the first.
    obtain ⟨front, hfront⟩ := List.getLast?_eq_some_iff.1 hends
    have hjoin : p.join q = ⟨p.text ++ q.text⟩ := by
      simp [join, hq, hends]
    have hpieces : Text.splitString '/' p.text =
        Text.splitString '/' (String.ofList front) ++ Text.splitString '/' "" :=
      Text.splitString_of_append (by simp [hfront])
    refine ⟨Text.splitString '/' (String.ofList front), Text.splitString_ne_nil _ _, ?_, ?_⟩
    · rw [hjoin]
      exact Text.splitString_of_append (by simp [hfront])
    · rw [hpieces, List.filterMap_append]
      exact (List.append_nil _).symm
  · have hjoin : p.join q = ⟨p.text ++ "/" ++ q.text⟩ := by
      simp [join, hq, hends, hnonempty]
    refine ⟨Text.splitString '/' p.text, Text.splitString_ne_nil _ _, ?_, rfl⟩
    rw [hjoin]
    exact Text.splitString_of_append (by simp)

/-- A relative path that is joined to an absolute one adds what its pieces stand for. -/
theorem components_join (hp : p.isAbsolute = true) (hq : q.isAbsolute = false) :
    (p.join q).components =
      p.components ++ (Text.splitString '/' q.text).filterMap componentOf? := by
  obtain ⟨front, -, hpieces, hfront⟩ := splitString_join hp hq
  rw [components_of_isAbsolute (join_isAbsolute hp), components_of_isAbsolute hp, hpieces,
    List.filterMap_append, hfront, List.cons_append]

/-! ## Names behind a root -/

/-- Names with separators between them are found again. -/
theorem splitString_names {names : List String} (hne : names ≠ [])
    (h : ∀ name ∈ names, IsName name) :
    Text.splitString '/' (Text.joinStrings '/' names) = names :=
  Text.splitString_joinStrings hne fun name hname => (h name hname).2

theorem filterMap_names {names : List String} (h : ∀ name ∈ names, IsName name) :
    names.filterMap componentOf? = names.map .normal := by
  induction names with
  | nil => rfl
  | cons name rest ih =>
    rw [List.filterMap_cons_some (h name List.mem_cons_self).1, List.map_cons,
      ih fun other hother => h other (List.mem_cons_of_mem _ hother)]

theorem isAbsolute_names {names : List String} (hne : names ≠ [])
    (h : ∀ name ∈ names, IsName name) : isAbsolute ⟨Text.joinStrings '/' names⟩ = false := by
  rw [Bool.eq_false_iff]
  intro habsolute
  obtain ⟨body, hpieces, -⟩ := splitString_of_isAbsolute habsolute
  rw [splitString_names hne h] at hpieces
  have hempty := (h "" (hpieces ▸ List.mem_cons_self)).isIdle
  cases hempty

theorem map_normal_names {below : List Component}
    (h : ∀ c ∈ below, c = .parent ∨ ∃ name, c = .normal name ∧ IsName name) :
    (below.filterMap Component.name?).map .normal = below.filter (· ≠ .parent) := by
  induction below with
  | nil => rfl
  | cons c rest ih =>
    have hrest := ih fun other hother => h other (List.mem_cons_of_mem _ hother)
    rcases h c List.mem_cons_self with rfl | ⟨name, rfl, -⟩
    · rw [List.filterMap_cons_none rfl, List.filter_cons_of_neg (by simp), hrest]
    · have hname : (Component.normal name).name? = some name := rfl
      rw [List.filterMap_cons_some hname, List.filter_cons_of_pos (by simp), List.map_cons, hrest]

/-- A relative name is made of the names among the components behind the root. -/
theorem relativeTo?_eq_some (hroot : root.isAbsolute = true)
    (h : relativeTo? root path = some relative) :
    ∃ below names, path.components = root.components ++ below ∧ names ≠ [] ∧
      (∀ name ∈ names, IsName name) ∧ relative = Text.joinStrings '/' names ∧
      names.map .normal = below.filter (· ≠ .parent) := by
  rw [relativeTo?, componentsBelow?] at h
  by_cases hprefix : root.components.isPrefixOf path.components = true
  · obtain ⟨below, hbelow⟩ := List.isPrefixOf_iff_prefix.1 hprefix
    rw [if_pos hprefix, ← hbelow, List.drop_left] at h
    have hpath : path.isAbsolute = true := by
      apply isAbsolute_of_head
      rw [← hbelow, components_of_isAbsolute hroot]
      rfl
    have htail : path.components.tail = root.components.tail ++ below := by
      rw [← hbelow, components_of_isAbsolute hroot]
      rfl
    have hcases : ∀ c ∈ below, c = .parent ∨ ∃ name, c = .normal name ∧ IsName name := by
      intro c hc
      apply mem_components_tail hpath
      rw [htail]
      exact List.mem_append_right _ hc
    refine ⟨below, below.filterMap Component.name?, hbelow.symm, ?_, ?_, ?_,
      map_normal_names hcases⟩
    · intro hnil
      simp [hnil] at h
    · intro name hname
      obtain ⟨c, hc, hnamed⟩ := List.mem_filterMap.1 hname
      rcases hcases c hc with rfl | ⟨other, rfl, hother⟩
      · cases hnamed
      · obtain rfl : other = name := Option.some.inj hnamed
        exact hother
    · cases hnames : below.filterMap Component.name? with
      | nil => simp [hnames] at h
      | cons name rest =>
        simp only [hnames] at h
        exact (Option.some.inj h).symm
  · rw [if_neg hprefix] at h
    cases h

/-- Joined to the root again, a relative name ends the path with a name. -/
theorem body_child_relativeTo? (hroot : root.isAbsolute = true)
    (h : relativeTo? root path = some relative) :
    ∃ parts name, (root.child relative).split.body = parts ++ [name] ∧ IsName name := by
  obtain ⟨-, names, -, hne, hnames, rfl, -⟩ := relativeTo?_eq_some hroot h
  have hrelative := isAbsolute_names hne hnames
  obtain ⟨body, hbody, hsplit⟩ := splitString_of_isAbsolute (join_isAbsolute hroot)
  obtain ⟨front, hfront, hpieces, -⟩ := splitString_join hroot hrelative
  rw [hbody, splitString_names hne hnames] at hpieces
  cases front with
  | nil => exact absurd rfl hfront
  | cons first front =>
    have htail : body = front ++ names := (List.cons.inj hpieces).2
    refine ⟨front ++ names.dropLast, names.getLast hne, ?_, hnames _ (List.getLast_mem hne)⟩
    rw [child, hsplit, htail, List.append_assoc, List.dropLast_concat_getLast]

/-- Joined to the root again, a relative name has the components of the path that it was made from,
but for the parent directories behind the root. -/
theorem components_child_relativeTo? (hroot : root.isAbsolute = true)
    (h : relativeTo? root path = some relative) :
    ∃ below, path.components = root.components ++ below ∧
      (root.child relative).components = root.components ++ below.filter (· ≠ .parent) := by
  obtain ⟨below, names, hbelow, hne, hnames, rfl, hnormal⟩ := relativeTo?_eq_some hroot h
  refine ⟨below, hbelow, ?_⟩
  rw [child, components_join hroot (isAbsolute_names hne hnames), splitString_names hne hnames,
    filterMap_names hnames, hnormal]

theorem components_child_eq_iff {below : List Component} (hroot : root.isAbsolute = true)
    (h : relativeTo? root path = some relative)
    (hbelow : path.components = root.components ++ below) :
    (root.child relative).components = path.components ↔ .parent ∉ below := by
  obtain ⟨below', hbelow', hchild⟩ := components_child_relativeTo? hroot h
  obtain rfl : below' = below := List.append_cancel_left (hbelow'.symm.trans hbelow)
  rw [hchild, hbelow, List.append_cancel_left_eq, List.filter_eq_self]
  constructor
  · intro hkept hparent
    exact of_decide_eq_true (hkept _ hparent) rfl
  · intro hparent c hc
    exact decide_eq_true fun heq => hparent (heq ▸ hc)

end StableFormat.Pathname
