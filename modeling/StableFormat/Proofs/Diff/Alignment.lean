import StableFormat.Proofs.Diff.Search

/-!
# Proofs: the edits between two sequences

Edits say which ranges of two sequences differ. They are `Aligned` if what lies before, between and
behind them is the same in both sequences.
-/

namespace StableFormat

variable {α : Type} {a b : List α} {e : Edit} {es : List Edit} {ops : List EditOp}
  {current : Option Edit} {i j i' j' s t : ℕ}

/-- The edit lies inside both sequences and is not empty. -/
structure Edit.Inside (e : Edit) (a b : List α) : Prop where
  leA : e.beginA ≤ e.endA
  leB : e.beginB ≤ e.endB
  lengthA : e.endA ≤ a.length
  lengthB : e.endB ≤ b.length
  changes : e.beginA < e.endA ∨ e.beginB < e.endB

/-- The edits between `(i, j)` and `(i', j')`. Neighbouring edits do not touch. -/
inductive Aligned (a b : List α) : List Edit → (i j i' j' : ℕ) → Prop
  | done {i j i' j' : ℕ} (same : InStep a b i j i' j') : Aligned a b [] i j i' j'
  | edit {e : Edit} {es : List Edit} {i j i' j' : ℕ} (same : InStep a b i j e.beginA e.beginB)
      (inside : e.Inside a b) (apart : ∀ next ∈ es.head?, e.endA < next.beginA)
      (rest : Aligned a b es e.endA e.endB i' j') : Aligned a b (e :: es) i j i' j'

theorem Aligned.before (h : Aligned a b es i j i' j') (hsame : InStep a b s t i j) :
    Aligned a b es s t i' j' := by
  cases h with
  | done same => exact .done (hsame.trans same)
  | edit same inside apart rest => exact .edit (hsame.trans same) inside apart rest

theorem Aligned.after (h : Aligned a b es i j i' j') (hsame : InStep a b i' j' s t) :
    Aligned a b es i j s t := by
  induction h with
  | done same => exact .done (same.trans hsame)
  | edit same inside apart _ ih => exact .edit same inside apart (ih hsame)

theorem Aligned.le_head (h : Aligned a b es i j i' j') : ∀ e ∈ es.head?, i ≤ e.beginA := by
  cases h with
  | done _ => simp
  | edit same inside apart rest => simpa using same.bounds.1

theorem Aligned.nil_iff : Aligned a b [] i j i' j' ↔ InStep a b i j i' j' :=
  ⟨fun h => by cases h with | done same => exact same, .done⟩

theorem Aligned.le (h : Aligned a b es i j i' j') : i ≤ i' ∧ j ≤ j' := by
  induction h with
  | done same => exact ⟨same.bounds.1, same.bounds.2.1⟩
  | edit same inside _ _ ih =>
    have hsame := same.bounds
    have hA := inside.leA
    have hB := inside.leB
    omega

/-! ## Grouping a script -/

/-- The edit in progress at `(i, j)`, if there is one, ends there. -/
def InProgress (a b : List α) (current : Option Edit) (i j : ℕ) : Prop :=
  ∀ e ∈ current, e.Inside a b ∧ e.endA = i ∧ e.endB = j

theorem inProgress_delete (h : InProgress a b current i j) (hi : i < a.length)
    (hj : j ≤ b.length) : InProgress a b (some (EditOp.extendDelete current i j)) (i + 1) j := by
  rintro _ ⟨⟩
  cases current with
  | none => exact ⟨⟨Nat.le_succ i, le_rfl, hi, hj, Or.inl (Nat.lt_succ_self i)⟩, rfl, rfl⟩
  | some e =>
    obtain ⟨⟨hA, hB, -, hlenB, -⟩, rfl, rfl⟩ := h e rfl
    exact ⟨⟨Nat.le_succ_of_le hA, hB, hi, hlenB, Or.inl (Nat.lt_succ_of_le hA)⟩, rfl, rfl⟩

theorem inProgress_insert (h : InProgress a b current i j) (hi : i ≤ a.length)
    (hj : j < b.length) : InProgress a b (some (EditOp.extendInsert current i j)) i (j + 1) := by
  rintro _ ⟨⟩
  cases current with
  | none => exact ⟨⟨le_rfl, Nat.le_succ j, hi, hj, Or.inr (Nat.lt_succ_self j)⟩, rfl, rfl⟩
  | some e =>
    obtain ⟨⟨hA, hB, hlenA, -, -⟩, rfl, rfl⟩ := h e rfl
    exact ⟨⟨hA, Nat.le_succ_of_le hB, hlenA, hj, Or.inr (Nat.lt_succ_of_le hB)⟩, rfl, rfl⟩

theorem group_aligned (h : EditPath a b ops i j i' j') (current : Option Edit)
    (hcurrent : InProgress a b current i j) (hi : i ≤ a.length) (hj : j ≤ b.length)
    (hsame : InStep a b s t (current.getD ⟨i, i, j, j⟩).beginA (current.getD ⟨i, i, j, j⟩).beginB) :
    Aligned a b (EditOp.group ops i j current) s t i' j' := by
  induction h generalizing current s t with
  | done i j =>
    cases current with
    | none => exact .done hsame
    | some e =>
      obtain ⟨hinside, rfl, rfl⟩ := hcurrent e rfl
      exact .edit hsame hinside (by simp) (.done (.refl _ _ _ _))
  | @equal ops i j i' j' x ha hb rest ih =>
    have hi' := (List.getElem?_eq_some_iff.1 ha).1
    have hj' := (List.getElem?_eq_some_iff.1 hb).1
    have hnone : InProgress a b none (i + 1) (j + 1) := by simp [InProgress]
    have hrest : Aligned a b (EditOp.group ops (i + 1) (j + 1) none) (i + 1) (j + 1) i' j' :=
      ih none hnone hi' hj' (.refl _ _ _ _)
    -- The kept element ends the edit in progress, and the next edit begins behind it.
    cases current with
    | none => exact hrest.before (hsame.trans (.single ha hb))
    | some e =>
      obtain ⟨hinside, rfl, rfl⟩ := hcurrent e rfl
      exact .edit hsame hinside hrest.le_head (hrest.before (.single ha hb))
  | delete ha rest ih =>
    refine ih _ (inProgress_delete hcurrent ha hj) ha hj ?_
    cases current <;> exact hsame
  | insert hb rest ih =>
    refine ih _ (inProgress_insert hcurrent hi hb) hi hb ?_
    cases current <;> exact hsame

/-! ## What both sequences start and end with -/

/-- A path between parts of two sequences is a path between the sequences. -/
theorem EditPath.within {a' b' : List α} {p q : ℕ} (h : EditPath a' b' ops i j i' j')
    (ha : ∀ k x, a'[k]? = some x → a[p + k]? = some x)
    (hb : ∀ k x, b'[k]? = some x → b[q + k]? = some x) :
    EditPath a b ops (p + i) (q + j) (p + i') (q + j') := by
  induction h with
  | done i j => exact .done _ _
  | equal hx hy rest ih => exact .equal (ha _ _ hx) (hb _ _ hy) ih
  | delete hi rest ih =>
    have hx := ha _ _ (List.getElem?_eq_getElem hi)
    exact .delete (List.getElem?_eq_some_iff.1 hx).1 ih
  | insert hj rest ih =>
    have hy := hb _ _ (List.getElem?_eq_getElem hj)
    exact .insert (List.getElem?_eq_some_iff.1 hy).1 ih

/-- The common end of two sequences is a stretch of equal elements. -/
theorem inStep_commonSuffix [DecidableEq α] (xs ys : List α) :
    InStep xs ys (xs.length - commonPrefixLength xs.reverse ys.reverse)
      (ys.length - commonPrefixLength xs.reverse ys.reverse) xs.length ys.length := by
  obtain ⟨n, hn, -, heq⟩ := inStep_commonPrefix xs.reverse ys.reverse
  have hle := commonPrefixLength_le xs.reverse ys.reverse
  rw [List.length_reverse, List.length_reverse] at hle
  rw [Nat.zero_add] at hn
  rw [hn] at hle ⊢
  refine ⟨n, by omega, by omega, fun k hk => ?_⟩
  obtain ⟨x, hx, hy⟩ := heq (n - 1 - k) (by omega)
  rw [Nat.zero_add, List.getElem?_reverse (by omega)] at hx hy
  refine ⟨x, ?_, ?_⟩
  · rw [← hx]
    congr 1
    omega
  · rw [← hy]
    congr 1
    omega

/-- Elements of a middle part, counted from the start of the whole. -/
theorem getElem?_middle {xs : List α} {x : α} {p n k : ℕ} (h : ((xs.drop p).take n)[k]? = some x) :
    xs[p + k]? = some x := by
  rw [List.getElem?_take] at h
  split at h
  · rwa [List.getElem?_drop] at h
  · simp at h

theorem editsWithin_aligned [DecidableEq α] (limit : ℕ) (a b : List α) :
    Aligned a b (editsWithin limit a b) 0 0 a.length b.length := by
  rw [editsWithin]
  generalize hp : commonPrefixLength a b = p
  generalize hn : commonPrefixLength (a.drop p).reverse (b.drop p).reverse = n
  have hprefix := inStep_commonPrefix a b
  have hle := commonPrefixLength_le a b
  have hsuffix := inStep_commonSuffix (a.drop p) (b.drop p)
  rw [hp] at hprefix hle
  rw [hn] at hsuffix
  have hpath := (scriptWithin_path limit ((a.drop p).take ((a.drop p).length - n))
    ((b.drop p).take ((b.drop p).length - n))).within (p := p) (q := p)
      (fun k x => getElem?_middle) (fun k x => getElem?_middle)
  refine Aligned.after (group_aligned hpath none (by simp [InProgress]) hle.1 hle.2 hprefix) ?_
  obtain ⟨m, hA, hB, heq⟩ := hsuffix
  simp only [List.length_take, List.length_drop] at hA hB heq ⊢
  refine ⟨m, by omega, by omega, fun k hk => ?_⟩
  obtain ⟨x, hx, hy⟩ := heq k hk
  rw [List.getElem?_drop] at hx hy
  refine ⟨x, ?_, ?_⟩
  · rw [← hx]
    congr 1
    omega
  · rw [← hy]
    congr 1
    omega

/-! ## Equal sequences -/

theorem InStep.eq (h : InStep a b 0 0 a.length b.length) : a = b := by
  obtain ⟨n, ha, hb, heq⟩ := h
  refine List.ext_getElem? fun k => ?_
  by_cases hk : k < n
  · obtain ⟨x, hx, hy⟩ := heq k hk
    rw [Nat.zero_add] at hx hy
    rw [hx, hy]
  · rw [List.getElem?_eq_none (by omega), List.getElem?_eq_none (by omega)]

theorem commonPrefixLength_self [DecidableEq α] (a : List α) :
    commonPrefixLength a a = a.length := by
  induction a with
  | nil => rfl
  | cons x xs ih => rw [commonPrefixLength, if_pos rfl, ih, List.length_cons]

theorem editsWithin_eq_nil_iff [DecidableEq α] (limit : ℕ) (a b : List α) :
    editsWithin limit a b = [] ↔ a = b := by
  constructor
  · intro hnil
    have haligned := editsWithin_aligned limit a b
    rw [hnil, Aligned.nil_iff] at haligned
    exact haligned.eq
  · rintro rfl
    rw [editsWithin, commonPrefixLength_self, List.drop_length]
    rfl

end StableFormat
