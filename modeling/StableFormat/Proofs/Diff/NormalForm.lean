import StableFormat.Proofs.Diff.Stripping

/-!
# Proofs: the normal form of edits

Edits are in normal form if none of them could be left out, made smaller at the front of the first
one, or joined with its neighbour. Both sequences are the same outside of them, and carrying them
out on the first sequence gives the second one.
-/

namespace StableFormat

variable {α : Type} {a b start middleA middleB finish : List α} {e : Edit} {es : List Edit}
  {ops : List EditOp} {i j i' j' m n : ℕ}

/-- What ranges leave over of a sequence from position `i` on: the stretches before the first range,
between neighbours, and behind the last one. -/
def stretches (xs : List α) : (i : ℕ) → (ranges : List (ℕ × ℕ)) → List (List α)
  | i, [] => [xs.drop i]
  | i, (first, last) :: ranges => (xs.take first).drop i :: stretches xs last ranges

/-- The first sequence from position `i` on, with the edits carried out. -/
def carryOut (a b : List α) : (i : ℕ) → List Edit → List α
  | i, [] => a.drop i
  | i, e :: es =>
    (a.take e.beginA).drop i ++ (b.take e.endB).drop e.beginB ++ carryOut a b e.endA es

/-- Edits that turn `a` into `b`, in normal form. -/
structure NormalForm (a b : List α) (es : List Edit) : Prop where
  inside : ∀ e ∈ es, e.Inside a b
  apart : es.Pairwise fun e later => e.endA < later.beginA ∧ e.endB < later.beginB
  unchanged : stretches a 0 (es.map fun e => (e.beginA, e.endA)) =
    stretches b 0 (es.map fun e => (e.beginB, e.endB))
  result : carryOut a b 0 es = b
  /-- The first edit begins where the longest common start of both sequences ends. -/
  first : ∀ e ∈ es.head?, e.beginA = e.beginB ∧
    ∀ n, n ≤ e.beginA ↔ n ≤ a.length ∧ n ≤ b.length ∧ a.take n = b.take n
  nil_iff : es = [] ↔ a = b

/-! ## Ranges and gaps -/

theorem Aligned.inside (h : Aligned a b es i j i' j') : ∀ e ∈ es, e.Inside a b := by
  induction h with
  | done same => simp
  | edit same inside apart rest ih =>
    intro e he
    rcases List.mem_cons.1 he with rfl | he
    · exact inside
    · exact ih e he

theorem Aligned.le_begin (h : Aligned a b es i j i' j') :
    ∀ e ∈ es, i ≤ e.beginA ∧ j ≤ e.beginB := by
  induction h with
  | done same => simp
  | edit same inside apart rest ih =>
    intro e he
    obtain ⟨hi, hj, -⟩ := same.bounds
    rcases List.mem_cons.1 he with rfl | he
    · exact ⟨hi, hj⟩
    · obtain ⟨hA, hB⟩ := ih e he
      have hleA := inside.leA
      have hleB := inside.leB
      exact ⟨by omega, by omega⟩

/-- The gap between two edits is as long in one sequence as in the other, so that neighbours that do
not touch in the first sequence do not touch in the second one. -/
theorem Aligned.pairwise_apart (h : Aligned a b es i j i' j') :
    es.Pairwise fun e later => e.endA < later.beginA ∧ e.endB < later.beginB := by
  induction h with
  | done same => exact List.Pairwise.nil
  | @edit e es i j i' j' same inside apart rest ih =>
    refine List.Pairwise.cons ?_ ih
    intro later hlater
    cases rest with
    | done same' => cases hlater
    | @edit next es _ _ _ _ gap inside' apart' rest' =>
      have hnext : e.endA < next.beginA := apart next rfl
      have hgap := gap.bounds
      rcases List.mem_cons.1 hlater with rfl | hlater
      · exact ⟨hnext, by omega⟩
      · obtain ⟨hA, hB⟩ := rest'.le_begin later hlater
        have hleA := inside'.leA
        have hleB := inside'.leB
        exact ⟨by omega, by omega⟩

theorem InStep.drop_eq (h : InStep a b i j a.length b.length) : a.drop i = b.drop j := by
  have heq := h.take_drop_eq
  rw [List.take_length, List.take_length] at heq
  exact heq

theorem Aligned.stretches_eq (h : Aligned a b es i j a.length b.length) :
    stretches a i (es.map fun e => (e.beginA, e.endA)) =
      stretches b j (es.map fun e => (e.beginB, e.endB)) := by
  generalize hm : a.length = m at h
  generalize hn : b.length = n at h
  induction h with
  | done same =>
    subst hm hn
    simp only [List.map_nil, stretches]
    rw [same.drop_eq]
  | edit same inside apart rest ih =>
    simp only [List.map_cons, stretches]
    rw [same.take_drop_eq, ih hm hn]

/-- A part of a sequence and what comes behind it. -/
theorem drop_take_append (xs : List α) (h : i ≤ m) :
    (xs.take m).drop i ++ xs.drop m = xs.drop i := by
  obtain ⟨n, rfl⟩ := Nat.exists_eq_add_of_le h
  rw [List.drop_take, Nat.add_sub_cancel_left, ← List.drop_drop, List.take_append_drop]

theorem Aligned.carryOut_eq (h : Aligned a b es i j a.length b.length) :
    carryOut a b i es = b.drop j := by
  generalize hm : a.length = m at h
  generalize hn : b.length = n at h
  induction h with
  | done same =>
    subst hm hn
    rw [carryOut]
    exact same.drop_eq
  | edit same inside apart rest ih =>
    rw [carryOut, ih hm hn, same.take_drop_eq, List.append_assoc,
      drop_take_append b inside.leB, drop_take_append b same.bounds.2.1]

/-! ## Where the first edit begins -/

/-- An edit in progress keeps its begin. -/
theorem group_begin (ops : List EditOp) (i j : ℕ) (current : Edit) :
    ∀ e ∈ (EditOp.group ops i j (some current)).head?,
      e.beginA = current.beginA ∧ e.beginB = current.beginB := by
  induction ops generalizing i j current with
  | nil =>
    intro e he
    obtain rfl : current = e := by simpa [EditOp.group] using he
    exact ⟨rfl, rfl⟩
  | cons op ops ih =>
    cases op with
    | equal =>
      intro e he
      obtain rfl : current = e := by simpa [EditOp.group] using he
      exact ⟨rfl, rfl⟩
    | delete => exact ih (i + 1) j (EditOp.extendDelete (some current) i j)
    | insert => exact ih i (j + 1) (EditOp.extendInsert (some current) i j)

/-- A script can only keep what both sequences have. -/
theorem EditPath.head_equal (h : EditPath a b (.equal :: ops) i j i' j') :
    ∃ x, a[i]? = some x ∧ b[j]? = some x := by
  cases h with
  | equal ha hb rest => exact ⟨_, ha, hb⟩

/-- A script that does not begin with a kept element changes something at its start. -/
theorem group_head (hops : ops.head? ≠ some .equal) (i j : ℕ) :
    ∀ e ∈ (EditOp.group ops i j none).head?, e.beginA = i ∧ e.beginB = j := by
  cases ops with
  | nil => simp [EditOp.group]
  | cons op ops =>
    cases op with
    | equal => exact absurd rfl hops
    | delete => exact group_begin ops (i + 1) j (EditOp.extendDelete none i j)
    | insert => exact group_begin ops i (j + 1) (EditOp.extendInsert none i j)

variable [DecidableEq α]

/-- The script for what is left begins with a change, if it does anything. -/
theorem Stripped.head?_script (h : Stripped a b start middleA middleB finish) (limit : ℕ) :
    (scriptWithin limit middleA.toArray middleB.toArray).head? ≠ some .equal := by
  intro hhead
  obtain ⟨ops, hops⟩ := List.head?_eq_some_iff.1 hhead
  have hpath := scriptWithin_path limit middleA middleB
  rw [hops] at hpath
  obtain ⟨x, hA, hB⟩ := hpath.head_equal
  have hfirst : ∀ middle : List α, middle[0]? = some x → (middle ++ finish).head? = some x := by
    intro middle hx
    rw [List.head?_append, List.head?_eq_getElem?, hx]
    rfl
  exact h.noStart x (hfirst middleA hA) (hfirst middleB hB)

/-- The edits between two sequences are in normal form, and so they are with any limit on the
search, whether it is kept or the search is given up. -/
theorem edits_normalForm (a b : List α) :
    NormalForm a b (edits a b) ∧ ∀ limit, NormalForm a b (editsWithin limit a b) := by
  have hwithin : ∀ limit, NormalForm a b (editsWithin limit a b) := by
    intro limit
    have haligned := editsWithin_aligned limit a b
    obtain ⟨start, middleA, middleB, finish, hstripped, -⟩ := exists_stripped a b
    refine ⟨haligned.inside, haligned.pairwise_apart, haligned.stretches_eq, ?_, ?_,
      editsWithin_eq_nil_iff limit a b⟩
    · have hresult := haligned.carryOut_eq
      rw [List.drop_zero] at hresult
      exact hresult
    · intro e he
      rw [hstripped.editsWithin_eq] at he
      obtain ⟨hA, hB⟩ := group_head (hstripped.head?_script limit) _ _ e he
      rw [hA, hB]
      exact ⟨rfl, hstripped.le_start_iff⟩
  exact ⟨hwithin maxEditDistance, hwithin⟩

end StableFormat
