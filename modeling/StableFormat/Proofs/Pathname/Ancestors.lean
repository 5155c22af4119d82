import Mathlib.Data.List.DropRight
import StableFormat.Proofs.Pathname.Destination

/-!
# Proofs: the directories above a path

The parent of a path is the path without its last component, however the path is written. So the path
and all its parents are the paths of its first components, each one shorter than the one before.
-/

namespace StableFormat.Pathname

variable {p q : Pathname} {body : List String} {cs : List Component} {fuel : ℕ}

/-! ## Cutting a path and putting it together -/

theorem not_mem_of_body {part : String} (h : part ∈ p.split.body) : '/' ∉ part.toList := by
  rcases split_cases p with ⟨body, hpieces, hsplit⟩ | ⟨body, hpieces, hsplit⟩ | hsplit
  · rw [hsplit] at h
    exact Text.not_mem_of_splitString (hpieces ▸ List.mem_cons_of_mem _ h)
  · rw [hsplit] at h
    exact Text.not_mem_of_splitString (hpieces ▸ List.mem_cons_of_mem _ h)
  · rw [hsplit] at h
    exact Text.not_mem_of_splitString h

/-- The first parts of a path, put together, do not start otherwise than the path does. -/
theorem start_of_prefix (hnone : p.split.start = none) (h : body <+: p.split.body) :
    (split ⟨Text.joinStrings '/' body⟩).start = none := by
  cases body with
  | nil => rfl
  | cons first more =>
    have hsplit : p.split = ⟨none, Text.splitString '/' p.text⟩ := by
      rcases split_cases p with ⟨_, -, hsplit⟩ | ⟨_, -, hsplit⟩ | hsplit
      · rw [hsplit] at hnone
        cases hnone
      · rw [hsplit] at hnone
        cases hnone
      · exact hsplit
    have hjoined : Text.splitString '/' (Text.joinStrings '/' (first :: more)) = first :: more :=
      Text.splitString_joinStrings (List.cons_ne_nil _ _) fun part hpart =>
        not_mem_of_body (h.subset hpart)
    rw [hsplit] at h
    obtain ⟨rest, hrest⟩ := h
    by_cases hempty : Text.joinStrings '/' (first :: more) = ""
    · rw [hempty]
      rfl
    · have hne : p.text ≠ "" := by
        intro htext
        rw [htext] at hrest
        obtain ⟨rfl, hmore⟩ := List.cons.inj hrest
        obtain rfl := (List.append_eq_nil_iff.1 hmore).1
        exact hempty rfl
      rw [start_split (p := ⟨Text.joinStrings '/' (first :: more)⟩) hjoined hempty,
        ← start_split hrest.symm hne, hnone]

theorem components_join_of_isPrefix (h : body <+: p.split.body) :
    (Split.join ⟨p.split.start, body⟩).components =
      p.split.start.toList ++ body.filterMap componentOf? := by
  have hparts : piecesOf (Text.joinStrings '/' body) = body.filterMap componentOf? :=
    piecesOf_joinStrings fun part hpart => not_mem_of_body (h.subset hpart)
  rcases split_cases p with ⟨_, -, hsplit⟩ | ⟨_, -, hsplit⟩ | hsplit
  · rw [hsplit]
    have hpieces : piecesOf ("/" ++ Text.joinStrings '/' body) = body.filterMap componentOf? := by
      rw [← String.empty_append (s := "/"), piecesOf_append_slash, hparts]
      rfl
    show components ⟨"/" ++ Text.joinStrings '/' body⟩ = _
    rw [components_eq_root_pieces (by simp [isAbsolute]), hpieces]
    rfl
  · rw [hsplit]
    by_cases hnil : body = []
    · subst hnil
      show components ⟨"."⟩ = [Component.current]
      decide +kernel
    · have hjoin : Split.join ⟨some .current, body⟩ = ⟨"." ++ "/" ++ Text.joinStrings '/' body⟩ := by
        rw [Split.join]
        simp [hnil, Component.text]
      rw [hjoin, components_append_slash (by decide), hparts]
      rfl
  · have hnone : p.split.start = none := by rw [hsplit]
    rw [hnone]
    show components ⟨Text.joinStrings '/' body⟩ = _
    rw [components_eq_start_pieces, start_of_prefix hnone h, hparts]

/-! ## Parents -/

theorem dropIdleEnd_eq_rdropWhile (body : List String) :
    dropIdleEnd body = body.rdropWhile isIdle := rfl

theorem dropIdleEnd_isPrefix (body : List String) : dropIdleEnd body <+: body :=
  List.rdropWhile_prefix isIdle body

theorem filterMap_dropIdleEnd (body : List String) :
    (dropIdleEnd body).filterMap componentOf? = body.filterMap componentOf? := by
  induction body using List.reverseRecOn with
  | nil => rfl
  | append_singleton body part ih =>
    rw [dropIdleEnd_eq_rdropWhile, List.rdropWhile_concat]
    by_cases hidle : isIdle part = true
    · have hnone : [part].filterMap componentOf? = [] :=
        List.filterMap_cons_none (componentOf?_eq_none_iff.2 hidle)
      rw [if_pos hidle, List.filterMap_append, hnone, List.append_nil]
      exact ih
    · rw [if_neg hidle]

/-- The parent is the path without its last component. -/
theorem components_parent? (h : p.parent? = some q) : ∃ c, p.components = q.components ++ [c] := by
  have hcomponents : p.components =
      p.split.start.toList ++ (dropIdleEnd p.split.body).filterMap componentOf? := by
    rw [filterMap_dropIdleEnd]
    rfl
  rw [parent?] at h
  cases hbody : dropIdleEnd p.split.body with
  | nil =>
    simp only [hbody] at h
    split at h
    · next hcurrent =>
      obtain rfl := Option.some.inj h
      refine ⟨.current, ?_⟩
      rw [hcomponents, hbody, hcurrent]
      rfl
    · cases h
  | cons first more =>
    have hne : first :: more ≠ [] := List.cons_ne_nil _ _
    obtain rfl : Split.join ⟨p.split.start, dropIdleEnd (first :: more).dropLast⟩ = q := by
      simpa only [hbody, Option.some_inj] using h
    have hlast : isIdle ((first :: more).getLast hne) = false := by
      have hnot := List.rdropWhile_last_not isIdle p.split.body
      simp only [← dropIdleEnd_eq_rdropWhile, hbody] at hnot
      simpa using hnot hne
    have hsome : ∃ c, componentOf? ((first :: more).getLast hne) = some c := by
      rw [← Option.isSome_iff_exists, Option.isSome_iff_ne_none]
      intro hnone
      rw [componentOf?_eq_none_iff.1 hnone] at hlast
      cases hlast
    obtain ⟨c, hc⟩ := hsome
    have hprefix : dropIdleEnd (first :: more).dropLast <+: p.split.body :=
      ((dropIdleEnd_isPrefix _).trans (List.dropLast_prefix _)).trans
        (hbody ▸ dropIdleEnd_isPrefix p.split.body)
    refine ⟨c, ?_⟩
    rw [components_join_of_isPrefix hprefix, filterMap_dropIdleEnd, hcomponents, hbody,
      List.append_assoc]
    conv_lhs => rw [← List.dropLast_append_getLast hne, List.filterMap_append,
      List.filterMap_cons_some hc]
    rfl

theorem components_of_parent?_eq_none (h : p.parent? = none) :
    p.components = [] ∨ p.components = [.root] := by
  have hcomponents : p.components =
      p.split.start.toList ++ (dropIdleEnd p.split.body).filterMap componentOf? := by
    rw [filterMap_dropIdleEnd]
    rfl
  rw [parent?] at h
  cases hbody : dropIdleEnd p.split.body with
  | nil =>
    simp only [hbody] at h
    rw [hcomponents, hbody]
    rcases split_cases p with ⟨_, -, hsplit⟩ | ⟨_, -, hsplit⟩ | hsplit
    · rw [hsplit]
      exact Or.inr rfl
    · simp [hsplit] at h
    · rw [hsplit]
      exact Or.inl rfl
  | cons first more => simp [hbody] at h

theorem isAbsolute_parent? (hp : p.isAbsolute = true) (h : p.parent? = some q) :
    q.isAbsolute = true := by
  obtain ⟨body, -, hsplit⟩ := splitString_of_isAbsolute hp
  rw [parent?, hsplit] at h
  split at h
  · cases h
  · obtain rfl := Option.some.inj h
    simp [Split.join, isAbsolute]

/-! ## All directories above -/

theorem prefix_of_mem_ancestorsWithin (h : q ∈ ancestorsWithin fuel p) :
    q.components <+: p.components := by
  induction fuel generalizing p with
  | zero => cases h
  | succ fuel ih =>
    rw [ancestorsWithin] at h
    rcases List.mem_cons.1 h with rfl | h
    · exact List.prefix_refl _
    · split at h
      · next above habove =>
        obtain ⟨c, hc⟩ := components_parent? habove
        exact (ih h).trans (hc ▸ List.prefix_append _ _)
      · cases h

theorem prefix_of_mem_ancestors (h : q ∈ p.ancestors) : q.components <+: p.components :=
  prefix_of_mem_ancestorsWithin h

theorem isAbsolute_of_mem_ancestorsWithin (hp : p.isAbsolute = true)
    (h : q ∈ ancestorsWithin fuel p) : q.isAbsolute = true := by
  induction fuel generalizing p with
  | zero => cases h
  | succ fuel ih =>
    rw [ancestorsWithin] at h
    rcases List.mem_cons.1 h with rfl | h
    · exact hp
    · split at h
      · next above habove => exact ih (isAbsolute_parent? hp habove) h
      · cases h

/-- The directories above a path without `..` are such paths. -/
theorem IsPlain.of_mem_ancestors (hp : p.IsPlain) (h : q ∈ p.ancestors) : q.IsPlain :=
  ⟨isAbsolute_of_mem_ancestorsWithin hp.1 h,
    fun hparent => hp.2 ((prefix_of_mem_ancestors h).subset hparent)⟩

theorem pairwise_ancestorsWithin (fuel : ℕ) (p : Pathname) :
    (ancestorsWithin fuel p).Pairwise fun q above =>
      above.components.length < q.components.length := by
  induction fuel generalizing p with
  | zero => exact List.Pairwise.nil
  | succ fuel ih =>
    rw [ancestorsWithin]
    split
    · next above habove =>
      refine List.Pairwise.cons ?_ (ih above)
      intro q hq
      obtain ⟨c, hc⟩ := components_parent? habove
      have hle := (prefix_of_mem_ancestorsWithin hq).length_le
      rw [hc, List.length_append, List.length_singleton]
      omega
    · exact List.pairwise_singleton _ _

/-- The nearer directory comes first. -/
theorem pairwise_ancestors (p : Pathname) :
    p.ancestors.Pairwise fun q above => above.components.length < q.components.length :=
  pairwise_ancestorsWithin _ p

theorem exists_mem_ancestorsWithin (hfuel : p.components.length < fuel) (h : cs <+: p.components)
    (hcs : cs = [] → p.isAbsolute = false) : ∃ q ∈ ancestorsWithin fuel p, q.components = cs := by
  induction fuel generalizing p with
  | zero => omega
  | succ fuel ih =>
    rw [ancestorsWithin]
    by_cases hself : p.components = cs
    · exact ⟨p, List.mem_cons_self, hself⟩
    · cases habove : p.parent? with
      | none =>
        -- Only the root has no parent, and only the empty path besides.
        rcases components_of_parent?_eq_none habove with hnil | hroot
        · rw [hnil] at h hself
          exact absurd (List.prefix_nil.1 h).symm hself
        · have hp : p.isAbsolute = true := isAbsolute_of_head (by rw [hroot]; rfl)
          rw [hroot, List.prefix_cons_iff] at h
          rcases h with rfl | ⟨rest, rfl, hrest⟩
          · rw [hcs rfl] at hp
            cases hp
          · rw [hroot, List.prefix_nil.1 hrest] at hself
            exact absurd rfl hself
      | some above =>
        obtain ⟨c, hc⟩ := components_parent? habove
        have hprefix : cs <+: above.components := by
          rw [hc, List.prefix_concat_iff] at h
          exact h.resolve_left fun heq => hself (hc.trans heq.symm)
        have habsolute : cs = [] → above.isAbsolute = false := by
          intro hnil
          rw [Bool.eq_false_iff]
          intro habsolute
          have hp : p.isAbsolute = true := by
            apply isAbsolute_of_head
            rw [hc, components_of_isAbsolute habsolute]
            rfl
          rw [hcs hnil] at hp
          cases hp
        have hlength : above.components.length < fuel := by
          rw [hc, List.length_append, List.length_singleton] at hfuel
          omega
        obtain ⟨q, hq, hcomponents⟩ := ih hlength hprefix habsolute
        exact ⟨q, List.mem_cons_of_mem _ hq, hcomponents⟩

/-- Every directory at or above a path is found on the way up; for an absolute path the way ends at the
root. -/
theorem exists_mem_ancestors (h : cs <+: p.components) (hcs : cs = [] → p.isAbsolute = false) :
    ∃ q ∈ p.ancestors, q.components = cs :=
  exists_mem_ancestorsWithin (Nat.lt_succ_self _) h hcs

end StableFormat.Pathname
