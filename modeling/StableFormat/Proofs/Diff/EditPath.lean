import Mathlib.Data.List.Basic
import StableFormat.Diff.Edits

/-!
# Proofs: edit scripts as paths in a grid

A script for two sequences is a path in a grid: at the point `(i, j)`, the first `i` elements of `a`
and the first `j` of `b` are done. `EditPath` follows a script forwards. `Reaches` only counts the
deletions and insertions on the way from the corner, and grows at its end, as the search does.
-/

namespace StableFormat

variable {α : Type} {a b : List α} {ops : List EditOp} {i j i' j' n : ℕ}

/-- From `(i, j)` to `(i', j')` both sequences have the same elements. -/
def InStep (a b : List α) (i j i' j' : ℕ) : Prop :=
  ∃ n, i' = i + n ∧ j' = j + n ∧ ∀ k < n, ∃ x, a[i + k]? = some x ∧ b[j + k]? = some x

/-- A script leads from `(i, j)` to `(i', j')`. -/
inductive EditPath (a b : List α) : List EditOp → ℕ → ℕ → ℕ → ℕ → Prop
  | done (i j : ℕ) : EditPath a b [] i j i j
  | equal {ops : List EditOp} {i j i' j' : ℕ} {x : α} (ha : a[i]? = some x) (hb : b[j]? = some x)
      (rest : EditPath a b ops (i + 1) (j + 1) i' j') : EditPath a b (.equal :: ops) i j i' j'
  | delete {ops : List EditOp} {i j i' j' : ℕ} (ha : i < a.length)
      (rest : EditPath a b ops (i + 1) j i' j') : EditPath a b (.delete :: ops) i j i' j'
  | insert {ops : List EditOp} {i j i' j' : ℕ} (hb : j < b.length)
      (rest : EditPath a b ops i (j + 1) i' j') : EditPath a b (.insert :: ops) i j i' j'

/-- Some script leads from the corner to `(i, j)` with `cost` deletions and insertions. -/
inductive Reaches (a b : List α) : (cost i j : ℕ) → Prop
  | corner : Reaches a b 0 0 0
  | keep {cost i j : ℕ} {x : α} (before : Reaches a b cost i j) (ha : a[i]? = some x)
      (hb : b[j]? = some x) : Reaches a b cost (i + 1) (j + 1)
  | drop {cost i j : ℕ} (before : Reaches a b cost i j) (ha : i < a.length) :
      Reaches a b (cost + 1) (i + 1) j
  | take {cost i j : ℕ} (before : Reaches a b cost i j) (hb : j < b.length) :
      Reaches a b (cost + 1) i (j + 1)

/-! ## Equal stretches -/

theorem InStep.refl (a b : List α) (i j : ℕ) : InStep a b i j i j :=
  ⟨0, rfl, rfl, fun k hk => by omega⟩

theorem InStep.trans {i₂ j₂ : ℕ} (h : InStep a b i j i' j') (h' : InStep a b i' j' i₂ j₂) :
    InStep a b i j i₂ j₂ := by
  obtain ⟨n, rfl, rfl, hn⟩ := h
  obtain ⟨m, rfl, rfl, hm⟩ := h'
  refine ⟨n + m, by omega, by omega, fun k hk => ?_⟩
  by_cases hkn : k < n
  · exact hn k hkn
  · have hsplit : ∀ l, l + k = l + n + (k - n) := fun l => by omega
    rw [hsplit i, hsplit j]
    exact hm (k - n) (by omega)

theorem InStep.single {x : α} (ha : a[i]? = some x) (hb : b[j]? = some x) :
    InStep a b i j (i + 1) (j + 1) := by
  refine ⟨1, rfl, rfl, fun k hk => ⟨x, ?_⟩⟩
  obtain rfl : k = 0 := by omega
  exact ⟨ha, hb⟩

/-- A stretch can be cut at any point. -/
theorem InStep.split (h : InStep a b i j i' j') (hn : i + n ≤ i') :
    InStep a b i j (i + n) (j + n) ∧ InStep a b (i + n) (j + n) i' j' := by
  obtain ⟨m, rfl, rfl, hm⟩ := h
  refine ⟨⟨n, rfl, rfl, fun k hk => hm k (by omega)⟩, m - n, by omega, by omega, fun k hk => ?_⟩
  have hshift : ∀ l, l + n + k = l + (n + k) := fun l => by omega
  rw [hshift i, hshift j]
  exact hm (n + k) (by omega)

/-- The first element of a stretch that is not empty. -/
theorem InStep.first (h : InStep a b i j i' j') (hlt : i < i') :
    ∃ x, a[i]? = some x ∧ b[j]? = some x := by
  obtain ⟨n, rfl, rfl, hn⟩ := h
  exact hn 0 (by omega)

theorem InStep.bounds (h : InStep a b i j i' j') : i ≤ i' ∧ j ≤ j' ∧ i' - i = j' - j := by
  obtain ⟨n, rfl, rfl, -⟩ := h
  omega

theorem InStep.le_length (h : InStep a b i j i' j') (hi : i ≤ a.length) : i' ≤ a.length := by
  obtain ⟨n, rfl, rfl, heq⟩ := h
  cases n with
  | zero => exact hi
  | succ n =>
    obtain ⟨x, hx, -⟩ := heq n (Nat.lt_succ_self n)
    exact (List.getElem?_eq_some_iff.1 hx).1

/-- Of two stretches from one point, the longer one goes on where the shorter one ends. -/
theorem InStep.cut {m : ℕ} (h : InStep a b i j i' j') (h' : InStep a b i j m n) (hm : m ≤ i') :
    InStep a b m n i' j' := by
  obtain ⟨k, rfl, rfl, -⟩ := h'
  exact (h.split hm).2

/-- The elements of a stretch are the same in both sequences. -/
theorem InStep.take_drop_eq (h : InStep a b i j i' j') : (a.take i').drop i = (b.take j').drop j := by
  obtain ⟨n, rfl, rfl, heq⟩ := h
  refine List.ext_getElem? fun k => ?_
  rw [List.getElem?_drop, List.getElem?_drop, List.getElem?_take, List.getElem?_take]
  by_cases hk : k < n
  · obtain ⟨x, hx, hy⟩ := heq k hk
    rw [if_pos (by omega), if_pos (by omega), hx, hy]
  · rw [if_neg (by omega), if_neg (by omega)]

theorem Reaches.cost_bounds {cost : ℕ} (h : Reaches a b cost i j) :
    i ≤ j + cost ∧ j ≤ i + cost ∧ cost ≤ i + j := by
  induction h with
  | corner => omega
  | keep _ _ _ ih => omega
  | drop _ _ ih => omega
  | take _ _ ih => omega

theorem EditPath.keep (h : InStep a b i j (i + n) (j + n))
    (rest : EditPath a b ops (i + n) (j + n) i' j') :
    EditPath a b (List.replicate n .equal ++ ops) i j i' j' := by
  induction n generalizing i j with
  | zero => exact rest
  | succ n ih =>
    obtain ⟨x, ha, hb⟩ := h.first (by omega)
    have hi : i + (n + 1) = i + 1 + n := by omega
    have hj : j + (n + 1) = j + 1 + n := by omega
    rw [hi, hj] at h rest
    have htail := (h.split (n := 1) (by omega)).2
    rw [List.replicate_succ, List.cons_append]
    exact .equal ha hb (ih htail rest)

/-- The common start of two sequences is a stretch of equal elements. -/
theorem inStep_commonPrefix [DecidableEq α] (xs ys : List α) :
    InStep xs ys 0 0 (commonPrefixLength xs ys) (commonPrefixLength xs ys) := by
  induction xs generalizing ys with
  | nil => exact ⟨0, rfl, rfl, fun k hk => by omega⟩
  | cons x xs ih =>
    cases ys with
    | nil => exact ⟨0, rfl, rfl, fun k hk => by omega⟩
    | cons y ys =>
      rw [commonPrefixLength]
      split
      · next hxy =>
        subst hxy
        obtain ⟨n, hn, -, heq⟩ := ih ys
        refine ⟨n + 1, by omega, by omega, fun k hk => ?_⟩
        cases k with
        | zero => exact ⟨x, rfl, rfl⟩
        | succ k => simpa using heq k (by omega)
      · exact InStep.refl _ _ _ _

/-- After the common start, the sequences differ or one of them ends. -/
theorem commonPrefix_maximal [DecidableEq α] (xs ys : List α) (x : α)
    (hx : xs[commonPrefixLength xs ys]? = some x) : ys[commonPrefixLength xs ys]? ≠ some x := by
  induction xs generalizing ys with
  | nil => simp [commonPrefixLength] at hx
  | cons z xs ih =>
    cases ys with
    | nil => simp [commonPrefixLength]
    | cons y ys =>
      rw [commonPrefixLength] at hx ⊢
      split at hx
      · next hzy =>
        rw [if_pos hzy]
        simp only [List.getElem?_cons_succ] at hx ⊢
        exact ih ys hx
      · next hzy =>
        rw [if_neg hzy]
        simp only [List.getElem?_cons_zero] at hx ⊢
        intro hy
        exact hzy (Option.some.inj (hx.trans hy.symm))

theorem commonPrefixLength_le [DecidableEq α] (xs ys : List α) :
    commonPrefixLength xs ys ≤ xs.length ∧ commonPrefixLength xs ys ≤ ys.length := by
  induction xs generalizing ys with
  | nil => simp [commonPrefixLength]
  | cons x xs ih =>
    cases ys with
    | nil => simp [commonPrefixLength]
    | cons y ys =>
      have hrest := ih ys
      rw [commonPrefixLength]
      split <;> simp only [List.length_cons] <;> omega

/-! ## Changes in a row -/

theorem EditPath.deletes (hi : i + n ≤ a.length) (rest : EditPath a b ops (i + n) j i' j') :
    EditPath a b (List.replicate n .delete ++ ops) i j i' j' := by
  induction n generalizing i with
  | zero => exact rest
  | succ n ih =>
    have hn : i + (n + 1) = i + 1 + n := by omega
    rw [hn] at hi rest
    rw [List.replicate_succ, List.cons_append]
    exact .delete (by omega) (ih hi rest)

theorem EditPath.inserts (hj : j + n ≤ b.length) (rest : EditPath a b ops i (j + n) i' j') :
    EditPath a b (List.replicate n .insert ++ ops) i j i' j' := by
  induction n generalizing j with
  | zero => exact rest
  | succ n ih =>
    have hn : j + (n + 1) = j + 1 + n := by omega
    rw [hn] at hj rest
    rw [List.replicate_succ, List.cons_append]
    exact .insert (by omega) (ih hj rest)

theorem editPath_replaceScript (a b : List α) :
    EditPath a b (replaceScript a.length b.length) 0 0 a.length b.length := by
  have hend : EditPath a b [] (0 + a.length) (0 + b.length) a.length b.length := by
    rw [Nat.zero_add, Nat.zero_add]
    exact .done _ _
  have hpath := EditPath.deletes (by omega) (.inserts (by omega) hend)
  rw [List.append_nil] at hpath
  exact hpath

end StableFormat
