import StableFormat.Environment
import StableFormat.Proofs.Pathname.Components
import StableFormat.Proofs.Text.Numbers

/-!
# Proofs: where a path leads by its names

Without links in the tree, a path can only lead to the place that its components spell out, with
`..` taken as the directory above. A relative path whose parent directories never outnumber the
names before them stays below whatever it is joined to. The names of kept orbits are made from a
path and the name of a format, and they stay below if the latter does.
-/

namespace StableFormat.Pathname

variable {p q : Pathname} {name : String} {cs ds : List Component} {depth : Nat}

/-- The place one component further, with `..` taken by name. -/
def Component.leadFrom (place : Place) : Component → Place
  | normal name => place ++ [name]
  | parent => place.dropLast
  | root | current => place

/-- The place that a path leads to if it leads anywhere. -/
def destination (p : Pathname) : Place :=
  p.components.foldl Component.leadFrom []

/-- What the parts of a text between separators stand for. -/
def piecesOf (text : String) : List Component :=
  (Text.splitString '/' text).filterMap componentOf?

/-- The components do not lead above the place that lies `depth` names above their start. -/
def descends : (depth : Nat) → List Component → Bool
  | _, [] => true
  | 0, .parent :: _ => false
  | depth + 1, .parent :: rest => descends depth rest
  | depth, .normal _ :: rest => descends (depth + 1) rest
  | depth, .root :: rest => descends depth rest
  | depth, .current :: rest => descends depth rest

/-- A relative path that never leads above the place that it is joined to. -/
def StaysBelow (name : String) : Prop :=
  isAbsolute ⟨name⟩ = false ∧ descends 0 (piecesOf name) = true

instance (name : String) : Decidable (StaysBelow name) :=
  inferInstanceAs (Decidable (_ ∧ _))

/-! ## Pieces and components -/

theorem piecesOf_append_slash (s t : String) : piecesOf (s ++ "/" ++ t) = piecesOf s ++ piecesOf t := by
  rw [piecesOf, Text.splitString_of_append (s := s) (t := t) (by simp), List.filterMap_append]
  rfl

theorem piecesOf_joinStrings {parts : List String} (h : ∀ part ∈ parts, '/' ∉ part.toList) :
    piecesOf (Text.joinStrings '/' parts) = parts.filterMap componentOf? := by
  by_cases hnil : parts = []
  · subst hnil
    rfl
  · rw [piecesOf, Text.splitString_joinStrings hnil h]

/-- How a path starts is told by its first piece. -/
theorem start_split {first : String} {rest : List String}
    (h : Text.splitString '/' p.text = first :: rest) (hne : p.text ≠ "") :
    p.split.start =
      if first.isEmpty then some .root else if first = "." then some .current else none := by
  cases rest with
  | nil =>
    obtain rfl : p.text = first := Text.eq_of_splitString_singleton h
    have hnonempty : p.text.isEmpty = false := by simpa using hne
    rw [split, h, hnonempty]
    by_cases hdot : p.text = "."
    · rw [hdot]
      rfl
    · simp [hdot]
  | cons second rest =>
    rw [split, h]
    dsimp only
    split
    · rfl
    · split <;> rfl

/-- A path is cut behind a first piece that tells its start, or it has no start. -/
theorem split_cases (p : Pathname) :
    (∃ body, Text.splitString '/' p.text = "" :: body ∧ p.split = ⟨some .root, body⟩) ∨
      (∃ body, Text.splitString '/' p.text = "." :: body ∧ p.split = ⟨some .current, body⟩) ∨
      p.split = ⟨none, Text.splitString '/' p.text⟩ := by
  rw [split]
  split
  · next first second rest hpieces =>
    split
    · next hempty =>
      rw [hpieces, String.isEmpty_iff.1 hempty]
      exact Or.inl ⟨_, rfl, rfl⟩
    · split
      · next hdot =>
        rw [hpieces, hdot]
        exact Or.inr (Or.inl ⟨_, rfl, rfl⟩)
      · exact Or.inr (Or.inr (by rw [hpieces]))
  · next hpieces => exact Or.inr (Or.inl ⟨_, hpieces, rfl⟩)
  · exact Or.inr (Or.inr rfl)

/-- Besides its start, a path has the components that its pieces stand for. -/
theorem components_eq_start_pieces (p : Pathname) :
    p.components = p.split.start.toList ++ piecesOf p.text := by
  rw [components, piecesOf]
  rcases split_cases p with ⟨body, hpieces, hsplit⟩ | ⟨body, hpieces, hsplit⟩ | hsplit
  · rw [hsplit, hpieces]
    rfl
  · rw [hsplit, hpieces]
    rfl
  · rw [hsplit]

/-- Only the empty path has no components. -/
theorem text_of_components_eq_nil (h : p.components = []) : p.text = "" := by
  by_contra hne
  rw [components_eq_start_pieces, List.append_eq_nil_iff] at h
  obtain ⟨hstart, hpieces⟩ := h
  cases hsplit : Text.splitString '/' p.text with
  | nil => exact Text.splitString_ne_nil _ _ hsplit
  | cons first rest =>
    rw [start_split hsplit hne] at hstart
    have hfirst : ¬ isIdle first = true := by
      intro hidle
      rw [isIdle, Bool.or_eq_true, decide_eq_true_eq] at hidle
      rcases hidle with hempty | hdot
      · rw [if_pos hempty] at hstart
        cases hstart
      · subst hdot
        cases hstart
    rw [piecesOf, hsplit, List.filterMap_eq_nil_iff] at hpieces
    exact hfirst (componentOf?_eq_none_iff.1 (hpieces first List.mem_cons_self))

/-- What stands behind a separator does not change how a path starts. -/
theorem components_append_slash {s : String} (hs : s ≠ "") (t : String) :
    components ⟨s ++ "/" ++ t⟩ = components ⟨s⟩ ++ piecesOf t := by
  cases hpieces : Text.splitString '/' s with
  | nil => exact absurd hpieces (Text.splitString_ne_nil '/' s)
  | cons first rest =>
    have hlonger : Text.splitString '/' (s ++ "/" ++ t) =
        first :: (rest ++ Text.splitString '/' t) := by
      rw [Text.splitString_of_append (s := s) (t := t) (by simp), hpieces]
      rfl
    have hne : s ++ "/" ++ t ≠ "" := by
      intro hempty
      simpa using congrArg String.toList hempty
    rw [components_eq_start_pieces, components_eq_start_pieces,
      start_split (p := ⟨s ++ "/" ++ t⟩) hlonger hne, start_split (p := ⟨s⟩) hpieces hs,
      piecesOf_append_slash, List.append_assoc]

/-! ## Components that descend -/

theorem foldl_leadFrom_descends (base below : Place) (h : descends below.length cs = true) :
    base <+: cs.foldl Component.leadFrom (base ++ below) := by
  induction cs generalizing below with
  | nil => exact List.prefix_append _ _
  | cons c rest ih =>
    rw [List.foldl_cons]
    cases c with
    | root | current => exact ih below (by rwa [descends] at h)
    | normal name =>
      rw [descends] at h
      have hlead : Component.leadFrom (base ++ below) (.normal name) = base ++ (below ++ [name]) :=
        List.append_assoc _ _ _
      rw [hlead]
      exact ih (below ++ [name]) (by rwa [List.length_append])
    | parent =>
      cases hbelow : below.length with
      | zero =>
        rw [hbelow] at h
        cases h
      | succ depth =>
        rw [hbelow, descends] at h
        have hne : below ≠ [] := List.ne_nil_of_length_eq_add_one hbelow
        have hlead : Component.leadFrom (base ++ below) .parent = base ++ below.dropLast :=
          List.dropLast_append_of_ne_nil hne
        rw [hlead]
        exact ih below.dropLast (by rwa [List.length_dropLast, hbelow, Nat.add_sub_cancel])

theorem descends_mono {deeper : Nat} (h : descends depth cs = true) (hle : depth ≤ deeper) :
    descends deeper cs = true := by
  induction cs generalizing depth deeper with
  | nil => cases deeper <;> rfl
  | cons c rest ih =>
    cases c with
    | root | current =>
      rw [descends] at h ⊢
      exact ih h hle
    | normal name =>
      rw [descends] at h ⊢
      exact ih h (by omega)
    | parent =>
      cases depth with
      | zero => cases h
      | succ depth =>
        obtain ⟨deeper, rfl⟩ : ∃ n, deeper = n + 1 := ⟨deeper - 1, by omega⟩
        rw [descends] at h ⊢
        exact ih h (by omega)

/-- What descends does so all the way, and a name at the end leads further down. -/
theorem descends_append_name (name : String) (h : descends depth (cs ++ ds) = true) :
    descends depth (cs ++ [.normal name]) = true := by
  induction cs generalizing depth with
  | nil => rfl
  | cons c rest ih =>
    rw [List.cons_append] at h ⊢
    cases c with
    | root | current | normal _ =>
      rw [descends] at h ⊢
      exact ih h
    | parent =>
      cases depth with
      | zero => cases h
      | succ depth =>
        rw [descends] at h ⊢
        exact ih h

theorem descends_names {names : List String} :
    descends depth (names.map .normal ++ cs) = descends (depth + names.length) cs := by
  induction names generalizing depth with
  | nil => rfl
  | cons name rest ih =>
    rw [List.map_cons, List.cons_append, descends, ih, List.length_cons]
    congr 1
    omega

/-! ## Joined paths -/

theorem components_child_relative (hp : p.isAbsolute = true) (hname : isAbsolute ⟨name⟩ = false) :
    (p.child name).components = p.components ++ piecesOf name :=
  components_join hp hname

theorem destination_child (hp : p.isAbsolute = true) (hname : isAbsolute ⟨name⟩ = false) :
    (p.child name).destination = (piecesOf name).foldl Component.leadFrom p.destination := by
  rw [destination, components_child_relative hp hname, List.foldl_append]
  rfl

theorem StaysBelow.destination_below (h : StaysBelow name) (hp : p.isAbsolute = true) :
    p.destination <+: (p.child name).destination := by
  rw [destination_child hp h.1]
  have hbelow := foldl_leadFrom_descends p.destination [] h.2
  rwa [List.append_nil] at hbelow

theorem absolute_eq_self (env : Environment) (hp : p.isAbsolute = true) : env.absolute p = p := by
  rw [Environment.absolute]
  split
  · rfl
  · rw [join, if_pos hp]

/-! ## Paths without `..` -/

/-- An absolute path that never goes back. -/
def IsPlain (p : Pathname) : Prop :=
  p.isAbsolute = true ∧ .parent ∉ p.components

instance (p : Pathname) : Decidable p.IsPlain :=
  inferInstanceAs (Decidable (_ ∧ _))

theorem components_eq_root_pieces (hp : p.isAbsolute = true) :
    p.components = .root :: piecesOf p.text :=
  components_of_isAbsolute hp

/-- Names lead to the place that they spell out. -/
theorem foldl_leadFrom_names (place names : Place) :
    (names.map .normal).foldl Component.leadFrom place = place ++ names := by
  induction names generalizing place with
  | nil => exact (List.append_nil place).symm
  | cons name rest ih =>
    rw [List.map_cons, List.foldl_cons, Component.leadFrom, ih, List.append_assoc]
    rfl

/-- Without `..` there are only names, and they are the place that the path leads to. -/
theorem IsPlain.components_eq (h : p.IsPlain) :
    p.components = .root :: p.destination.map .normal ∧ ∀ name ∈ p.destination, IsName name := by
  obtain ⟨hp, hparent⟩ := h
  have hcomponents := components_eq_root_pieces hp
  have hcases : ∀ c ∈ piecesOf p.text, c = .parent ∨ ∃ name, c = .normal name ∧ IsName name := by
    intro c hc
    apply mem_components_tail hp
    rwa [hcomponents]
  have hnames : ((piecesOf p.text).filterMap Component.name?).map .normal = piecesOf p.text := by
    rw [map_normal_names hcases, List.filter_eq_self]
    intro c hc
    refine decide_eq_true ?_
    rintro rfl
    exact hparent (hcomponents ▸ List.mem_cons_of_mem _ hc)
  have hdestination : p.destination = (piecesOf p.text).filterMap Component.name? := by
    rw [destination, hcomponents, ← hnames, List.foldl_cons, foldl_leadFrom_names, hnames]
    rfl
  refine ⟨by rw [hdestination, hnames, hcomponents], ?_⟩
  intro name hname
  obtain ⟨c, hc, hnamed⟩ := List.mem_filterMap.1 (hdestination ▸ hname)
  rcases hcases c hc with rfl | ⟨other, rfl, hother⟩
  · cases hnamed
  · obtain rfl : other = name := Option.some.inj hnamed
    exact hother

/-! ## The names of kept orbits -/

theorem componentOf?_of_name {segment : String} (hempty : segment ≠ "") (hdot : segment ≠ ".")
    (hparent : segment ≠ "..") : componentOf? segment = some (.normal segment) := by
  have hidle : isIdle segment = false := by simp [isIdle, hempty, hdot]
  simp [componentOf?, hidle, hparent]

/-- A segment that ends with a number is a name. -/
theorem componentOf?_append_number (segment : String) (number : Nat) :
    componentOf? (segment ++ toString number) = some (.normal (segment ++ toString number)) := by
  have hne : (toString number).toList ≠ [] := by
    rw [Text.toList_number]
    exact Nat.toDigits_ne_nil
  have hdigit := Text.isDigit_of_mem_number (List.getLast_mem hne)
  have hlast : (segment ++ toString number).toList.getLast? =
      some ((toString number).toList.getLast hne) := by
    rw [String.toList_append, List.getLast?_append, List.getLast?_eq_some_getLast hne]
    rfl
  generalize (toString number).toList.getLast hne = digit at hdigit hlast
  apply componentOf?_of_name
  · intro heq
    rw [heq] at hlast
    cases hlast
  · intro heq
    rw [heq] at hlast
    obtain rfl : '.' = digit := Option.some.inj hlast
    cases hdigit
  · intro heq
    rw [heq] at hlast
    obtain rfl : '.' = digit := Option.some.inj hlast
    cases hdigit

/-- A segment that goes on behind a name and a dot is a name. -/
theorem IsName.componentOf?_append (h : IsName name) (segment : String) :
    componentOf? (name ++ ("." ++ segment)) = some (.normal (name ++ ("." ++ segment))) := by
  have hne := h.toList_ne_nil
  have htext : (name ++ ("." ++ segment)).toList = name.toList ++ '.' :: segment.toList := by
    simp
  apply componentOf?_of_name
  · intro heq
    rw [heq] at htext
    cases hname : name.toList <;> simp [hname] at htext
  · intro heq
    rw [heq] at htext
    cases hname : name.toList with
    | nil => exact hne hname
    | cons c cs => simp [hname] at htext
  · -- Only the name `.` would lead to the parent directory.
    intro heq
    rw [heq] at htext
    have hdots : ['.', '.'] = name.toList ++ '.' :: segment.toList := htext
    cases hname : name.toList with
    | nil => exact hne hname
    | cons c cs =>
      rw [hname] at hdots
      obtain ⟨rfl, hrest⟩ := List.cons.inj hdots
      cases cs with
      | nil =>
        have hdot : name = "." := String.toList_injective hname
        have hidle := h.isIdle
        rw [hdot] at hidle
        cases hidle
      | cons c' cs => simp at hrest

/-- The parts of an orbit's name, which begins with the names of a path and ends with a number. The
first and the last part of the format's name are not parts of their own. -/
theorem splitString_orbitName {names front : List String} {last format : String} (number : Nat)
    (hne : names ≠ []) (hnames : ∀ name ∈ names, IsName name)
    (hformat : Text.splitString '/' format = front ++ [last]) :
    Text.splitString '/' (Text.joinStrings '/' names ++ "." ++ format ++ toString number) =
      match front with
      | [] => names.dropLast ++ [names.getLast hne ++ ("." ++ last ++ toString number)]
      | first :: front =>
        names.dropLast ++ (names.getLast hne ++ ("." ++ first)) ::
          (front ++ [last ++ toString number]) := by
  have hpath : Text.splitString '/' (Text.joinStrings '/' names) =
      names.dropLast ++ [names.getLast hne] := by
    rw [splitString_names hne hnames, List.dropLast_concat_getLast]
  have hdot : Text.splitString '/' "." = [] ++ ["."] := by decide
  have hnumber : Text.splitString '/' (toString number) = toString number :: [] := by
    exact Text.splitString_of_notMem (Text.not_mem_number rfl number)
  have hbrackets : Text.joinStrings '/' names ++ "." ++ format ++ toString number =
      Text.joinStrings '/' names ++ ("." ++ format ++ toString number) := by
    simp only [String.append_assoc]
  rw [hbrackets]
  cases front with
  | nil =>
    have hdotted : Text.splitString '/' ("." ++ format) = [] ++ ["." ++ last] :=
      Text.splitString_append hdot hformat
    have hend := Text.splitString_append hdotted hnumber
    exact Text.splitString_append hpath hend
  | cons first front =>
    have hdotted : Text.splitString '/' ("." ++ format) = (("." ++ first) :: front) ++ [last] :=
      Text.splitString_append hdot hformat
    have hend := Text.splitString_append hdotted hnumber
    exact Text.splitString_append hpath hend

/-- Behind its first piece, what stays below stays one name further down as well. -/
theorem descends_of_cons {segment : String} {parts : List String}
    (h : descends 0 ((segment :: parts).filterMap componentOf?) = true) :
    descends 1 (parts.filterMap componentOf?) = true := by
  cases hc : componentOf? segment with
  | none =>
    rw [List.filterMap_cons_none hc] at h
    exact descends_mono h (by decide)
  | some c =>
    rw [List.filterMap_cons_some hc] at h
    rcases componentOf?_cases hc with rfl | rfl
    · cases h
    · exact h

theorem StaysBelow.orbitName {names : List String} {format : String} (number : Nat)
    (hne : names ≠ []) (hnames : ∀ name ∈ names, IsName name) (h : StaysBelow format) :
    StaysBelow (Text.joinStrings '/' names ++ "." ++ format ++ toString number) := by
  constructor
  · have hrelative := isAbsolute_names hne hnames
    rw [isAbsolute, decide_eq_false_iff_not] at hrelative ⊢
    cases hpath : (Text.joinStrings '/' names).toList with
    | nil => simp [hpath]
    | cons c cs => simpa [hpath] using hrelative
  · obtain ⟨front, last, hformat⟩ :
        ∃ front last, Text.splitString '/' format = front ++ [last] :=
      ⟨_, _, (List.dropLast_concat_getLast (Text.splitString_ne_nil '/' format)).symm⟩
    have hlast := hnames _ (List.getLast_mem hne)
    have hinit : ∀ name ∈ names.dropLast, IsName name :=
      fun name hname => hnames name (List.dropLast_subset _ hname)
    rw [piecesOf, splitString_orbitName number hne hnames hformat]
    cases front with
    | nil =>
      rw [List.filterMap_append, filterMap_names hinit, descends_names, String.append_assoc,
        List.filterMap_cons_some (hlast.componentOf?_append _)]
      rfl
    | cons first front =>
      have hdown : descends 1 (front.filterMap componentOf? ++ [last].filterMap componentOf?) =
          true := by
        rw [← List.filterMap_append]
        have hparts : descends 0 ((first :: (front ++ [last])).filterMap componentOf?) = true := by
          rw [← List.cons_append, ← hformat]
          exact h.2
        exact descends_of_cons hparts
      have hend := descends_append_name (last ++ toString number) hdown
      rw [List.filterMap_append, filterMap_names hinit, descends_names,
        List.filterMap_cons_some (hlast.componentOf?_append _), List.filterMap_append,
        List.filterMap_cons_some (componentOf?_append_number last number), descends]
      exact descends_mono hend (by omega)

end StableFormat.Pathname
