import StableFormat.Proofs.Diff.Alignment

/-!
# Proofs: what is left between the common start and the common end

Before a script is searched, what both sequences start with and what the rests end with is set
aside. The parts that are left are fixed by two facts: the rests do not start with one element, and
the parts do not end with one.
-/

namespace StableFormat

variable {α : Type} {a b start middleA middleB finish : List α}

/-- Two sequences between a longest common start and a longest common end of the rests. -/
structure Stripped (a b start middleA middleB finish : List α) : Prop where
  left : a = start ++ (middleA ++ finish)
  right : b = start ++ (middleB ++ finish)
  noStart : ∀ x, (middleA ++ finish).head? = some x → (middleB ++ finish).head? ≠ some x
  noFinish : ∀ x, middleA.getLast? = some x → middleB.getLast? ≠ some x

/-- No longer start is common to both sequences. -/
theorem Stripped.le_start_iff (h : Stripped a b start middleA middleB finish) (n : ℕ) :
    n ≤ start.length ↔ n ≤ a.length ∧ n ≤ b.length ∧ a.take n = b.take n := by
  have hA : ∀ m, a[start.length + m]? = (middleA ++ finish)[m]? := by
    intro m
    rw [h.left, List.getElem?_append_right (Nat.le_add_right _ _), Nat.add_sub_cancel_left]
  have hB : ∀ m, b[start.length + m]? = (middleB ++ finish)[m]? := by
    intro m
    rw [h.right, List.getElem?_append_right (Nat.le_add_right _ _), Nat.add_sub_cancel_left]
  constructor
  · intro hn
    have hlenA : a.length = start.length + (middleA ++ finish).length := by
      rw [h.left, List.length_append]
    have hlenB : b.length = start.length + (middleB ++ finish).length := by
      rw [h.right, List.length_append]
    refine ⟨by omega, by omega, ?_⟩
    rw [h.left, h.right, List.take_append_of_le_length hn, List.take_append_of_le_length hn]
  · rintro ⟨hnA, hnB, htake⟩
    by_contra hlt
    -- A longer common start would hold the element that the rests start with.
    have hx : a[start.length]? = some a[start.length] := List.getElem?_eq_getElem (by omega)
    have hy : b[start.length]? = a[start.length]? := by
      have hget := congrArg (fun xs => xs[start.length]?) htake
      rw [List.getElem?_take_of_lt (by omega), List.getElem?_take_of_lt (by omega)] at hget
      exact hget.symm
    have hheadA := hA 0
    have hheadB := hB 0
    rw [Nat.add_zero, ← List.head?_eq_getElem?] at hheadA hheadB
    exact h.noStart _ (hheadA.symm.trans hx) (hheadB.symm.trans (hy.trans hx))

/-- Read backwards, the rests start with their common end. -/
theorem Stripped.backwards (h : Stripped a b start middleA middleB finish) :
    Stripped (middleA ++ finish).reverse (middleB ++ finish).reverse finish.reverse
      middleA.reverse middleB.reverse [] := by
  refine ⟨by simp, by simp, ?_, ?_⟩
  · intro x hx
    rw [List.append_nil, List.head?_reverse] at hx ⊢
    exact h.noFinish x hx
  · have hhead : ∀ (middle : List α) (x : α), middle.reverse.getLast? = some x →
        (middle ++ finish).head? = some x := by
      intro middle x hx
      rw [List.getLast?_reverse] at hx
      rw [List.head?_append, hx]
      rfl
    intro x hA hB
    exact h.noStart x (hhead middleA x hA) (hhead middleB x hB)

theorem Stripped.length_start (h : Stripped a b start middleA middleB finish)
    {start' middleA' middleB' finish' : List α}
    (h' : Stripped a b start' middleA' middleB' finish') : start.length = start'.length := by
  apply Nat.le_antisymm
  · exact (h'.le_start_iff _).2 ((h.le_start_iff _).1 le_rfl)
  · exact (h.le_start_iff _).2 ((h'.le_start_iff _).1 le_rfl)

/-- There is only one way to set the common start and the common end aside. -/
theorem Stripped.unique (h : Stripped a b start middleA middleB finish)
    {start' middleA' middleB' finish' : List α}
    (h' : Stripped a b start' middleA' middleB' finish') :
    start = start' ∧ middleA = middleA' ∧ middleB = middleB' ∧ finish = finish' := by
  obtain ⟨hstart, hA⟩ := List.append_inj (h.left.symm.trans h'.left) (h.length_start h')
  obtain ⟨-, hB⟩ := List.append_inj (h.right.symm.trans h'.right) (h.length_start h')
  have hbackwards := h'.backwards
  rw [← hA, ← hB] at hbackwards
  have hfinish := h.backwards.length_start hbackwards
  rw [List.length_reverse, List.length_reverse] at hfinish
  obtain ⟨hmiddleA, hend⟩ := List.append_inj' hA hfinish
  obtain ⟨hmiddleB, -⟩ := List.append_inj' hB hfinish
  exact ⟨hstart, hmiddleA, hmiddleB, hend⟩

variable [DecidableEq α]

/-- A middle part, without the common end of two rests, ends where they differ. -/
theorem getLast?_withoutSuffix (xs ys : List α) (x : α)
    (h : (xs.take (xs.length - commonPrefixLength xs.reverse ys.reverse)).getLast? = some x) :
    (ys.take (ys.length - commonPrefixLength xs.reverse ys.reverse)).getLast? ≠ some x := by
  obtain ⟨hleX, hleY⟩ := commonPrefixLength_le xs.reverse ys.reverse
  rw [List.length_reverse] at hleX hleY
  have hlast : ∀ zs : List α, commonPrefixLength xs.reverse ys.reverse ≤ zs.length →
      (zs.take (zs.length - commonPrefixLength xs.reverse ys.reverse)).getLast? =
        zs.reverse[commonPrefixLength xs.reverse ys.reverse]? := by
    intro zs hle
    rw [List.getLast?_eq_head?_reverse, List.reverse_take, List.head?_drop,
      Nat.sub_sub_self hle]
  rw [hlast xs hleX] at h
  rw [hlast ys hleY]
  exact commonPrefix_maximal _ _ x h

/-- The parts that the script is searched for are what is left between the longest common start and
the longest common end of the rests. -/
theorem exists_stripped (a b : List α) :
    ∃ start middleA middleB finish, Stripped a b start middleA middleB finish ∧
      ∀ limit, editsWithin limit a b =
        EditOp.group (scriptWithin limit middleA.toArray middleB.toArray) start.length start.length
          none := by
  have hstart := (inStep_commonPrefix a b).take_drop_eq
  have hlen := (commonPrefixLength_le a b).1
  have hmaximal := commonPrefix_maximal a b
  simp only [editsWithin]
  generalize commonPrefixLength a b = p at hstart hlen hmaximal ⊢
  have hfinish := (inStep_commonSuffix (a.drop p) (b.drop p)).take_drop_eq
  have hlast := getLast?_withoutSuffix (a.drop p) (b.drop p)
  generalize commonPrefixLength (a.drop p).reverse (b.drop p).reverse = n at hfinish hlast ⊢
  rw [List.drop_zero, List.drop_zero] at hstart
  rw [List.take_length, List.take_length] at hfinish
  have hrestA := List.take_append_drop ((a.drop p).length - n) (a.drop p)
  have hrestB := List.take_append_drop ((b.drop p).length - n) (b.drop p)
  rw [← hfinish] at hrestB
  refine ⟨a.take p, (a.drop p).take ((a.drop p).length - n),
    (b.drop p).take ((b.drop p).length - n), (a.drop p).drop ((a.drop p).length - n),
    ⟨?_, ?_, ?_, hlast⟩, ?_⟩
  · rw [hrestA, List.take_append_drop]
  · rw [hrestB, hstart, List.take_append_drop]
  · intro x hx
    rw [hrestA, List.head?_drop] at hx
    rw [hrestB, List.head?_drop]
    exact hmaximal x hx
  · intro limit
    rw [List.length_take, Nat.min_eq_left hlen]

/-- The script is searched for the middle parts, whatever the limit. -/
theorem Stripped.editsWithin_eq (h : Stripped a b start middleA middleB finish) (limit : ℕ) :
    editsWithin limit a b =
      EditOp.group (scriptWithin limit middleA.toArray middleB.toArray) start.length start.length
        none := by
  obtain ⟨start', middleA', middleB', finish', hstripped, hgroup⟩ := exists_stripped a b
  obtain ⟨rfl, rfl, rfl, rfl⟩ := h.unique hstripped
  exact hgroup limit

end StableFormat
