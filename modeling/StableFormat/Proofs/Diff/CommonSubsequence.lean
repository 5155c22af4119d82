import Mathlib.Data.List.Sublists
import Mathlib.Data.Nat.Find
import StableFormat.Proofs.Diff.Search
import StableFormat.Proofs.Diff.Stripping

/-!
# Proofs: longest common subsequences and edit distance

What a script keeps is a common subsequence, and every common subsequence is kept by some script. So
the least number of deletions and insertions is what a longest common subsequence leaves over of
both sequences. A common start and a common end do not change it.
-/

namespace StableFormat

variable {α : Type} {a b l start middleA middleB finish : List α} {ops : List EditOp}
  {cost i j i' j' n : ℕ}

/-! ## What scripts keep -/

/-- What a script keeps is a common subsequence. -/
theorem EditPath.exists_kept (h : EditPath a b ops i j a.length b.length) :
    ∃ l : List α, l.Sublist (a.drop i) ∧ l.Sublist (b.drop j) ∧
      i + j + scriptCost ops + 2 * l.length = a.length + b.length := by
  generalize hm : a.length = m at h
  generalize hn : b.length = n at h
  induction h with
  | done i j => exact ⟨[], List.nil_sublist _, List.nil_sublist _, by simp [scriptCost]⟩
  | @equal ops i j _ _ x ha hb rest ih =>
    obtain ⟨l, hA, hB, hcost⟩ := ih hm hn
    obtain ⟨hi, hx⟩ := List.getElem?_eq_some_iff.1 ha
    obtain ⟨hj, hy⟩ := List.getElem?_eq_some_iff.1 hb
    refine ⟨x :: l, ?_, ?_, ?_⟩
    · rw [List.drop_eq_getElem_cons hi, hx]
      exact hA.cons_cons x
    · rw [List.drop_eq_getElem_cons hj, hy]
      exact hB.cons_cons x
    · rw [scriptCost_equal, List.length_cons]
      omega
  | @delete ops i j _ _ hi rest ih =>
    obtain ⟨l, hA, hB, hcost⟩ := ih hm hn
    refine ⟨l, ?_, hB, ?_⟩
    · rw [List.drop_eq_getElem_cons hi]
      exact hA.cons _
    · rw [scriptCost_delete]
      omega
  | @insert ops i j _ _ hj rest ih =>
    obtain ⟨l, hA, hB, hcost⟩ := ih hm hn
    refine ⟨l, hA, ?_, ?_⟩
    · rw [List.drop_eq_getElem_cons hj]
      exact hB.cons _
    · rw [scriptCost_insert]
      omega

/-- Where the first element of a subsequence is found. -/
theorem exists_of_cons_sublist {x : α} {xs : List α} (h : (x :: l).Sublist xs) :
    ∃ n, xs[n]? = some x ∧ l.Sublist (xs.drop (n + 1)) := by
  induction xs with
  | nil => cases h
  | cons y ys ih =>
    cases h with
    | cons _ hrest =>
      obtain ⟨n, hx, hl⟩ := ih hrest
      exact ⟨n + 1, by simpa using hx, by simpa using hl⟩
    | cons_cons _ hrest => exact ⟨0, rfl, hrest⟩

/-- Every common subsequence is kept by a script. -/
theorem exists_script_keeping (l : List α) (hA : l.Sublist (a.drop i)) (hB : l.Sublist (b.drop j))
    (hi : i ≤ a.length) (hj : j ≤ b.length) :
    ∃ ops, EditPath a b ops i j a.length b.length ∧
      i + j + scriptCost ops + 2 * l.length = a.length + b.length := by
  induction l generalizing i j with
  | nil =>
    obtain ⟨n, hn⟩ := Nat.exists_eq_add_of_le hi
    obtain ⟨m, hm⟩ := Nat.exists_eq_add_of_le hj
    have hend : EditPath a b [] (i + n) (j + m) a.length b.length := by
      rw [hn, hm]
      exact .done _ _
    refine ⟨_, .deletes hn.ge (.inserts hm.ge hend), ?_⟩
    rw [scriptCost_append, scriptCost_append, scriptCost_replicate (by decide),
      scriptCost_replicate (by decide), List.length_nil]
    have hnone : scriptCost [] = 0 := rfl
    omega
  | cons x l ih =>
    -- The script drops and takes what stands before `x`, and keeps `x`.
    obtain ⟨n, ha, hA'⟩ := exists_of_cons_sublist hA
    obtain ⟨m, hb, hB'⟩ := exists_of_cons_sublist hB
    rw [List.getElem?_drop] at ha hb
    rw [List.drop_drop] at hA' hB'
    have hi' := (List.getElem?_eq_some_iff.1 ha).1
    have hj' := (List.getElem?_eq_some_iff.1 hb).1
    obtain ⟨ops, hpath, hcost⟩ := ih hA' hB' hi' hj'
    refine ⟨_, .deletes hi'.le (.inserts hj'.le (.equal ha hb hpath)), ?_⟩
    rw [scriptCost_append, scriptCost_append, scriptCost_replicate (by decide),
      scriptCost_replicate (by decide), scriptCost_equal, List.length_cons]
    omega

/-- A script goes on from where another one has come. -/
theorem Reaches.follow (h : Reaches a b cost i j) (hpath : EditPath a b ops i j i' j') :
    Reaches a b (cost + scriptCost ops) i' j' := by
  induction hpath generalizing cost with
  | done i j => exact h
  | equal ha hb rest ih =>
    rw [scriptCost_equal]
    exact ih (h.keep ha hb)
  | delete ha rest ih =>
    rw [scriptCost_delete, ← Nat.add_assoc, Nat.add_right_comm]
    exact ih (h.drop ha)
  | insert hb rest ih =>
    rw [scriptCost_insert, ← Nat.add_assoc, Nat.add_right_comm]
    exact ih (h.take hb)

/-! ## Longest common subsequences -/

variable [DecidableEq α]

/-- The greatest length of a common subsequence. -/
def lcsLength (a b : List α) : ℕ :=
  Nat.findGreatest (fun n => ∃ l ∈ a.sublists, l.Sublist b ∧ l.length = n) a.length

/-- The number of elements that a longest common subsequence leaves over in both sequences. -/
def editDistance (a b : List α) : ℕ :=
  a.length + b.length - 2 * lcsLength a b

theorem length_le_lcsLength (hA : l.Sublist a) (hB : l.Sublist b) : l.length ≤ lcsLength a b :=
  Nat.le_findGreatest hA.length_le ⟨l, List.mem_sublists.2 hA, hB, rfl⟩

theorem exists_lcs (a b : List α) :
    ∃ l : List α, l.Sublist a ∧ l.Sublist b ∧ l.length = lcsLength a b := by
  have hempty : ∃ l ∈ a.sublists, l.Sublist b ∧ l.length = 0 :=
    ⟨[], List.mem_sublists.2 (List.nil_sublist a), List.nil_sublist b, rfl⟩
  obtain ⟨l, hA, hB, hlen⟩ := Nat.findGreatest_spec
    (P := fun n => ∃ l ∈ a.sublists, l.Sublist b ∧ l.length = n) (Nat.zero_le a.length) hempty
  exact ⟨l, List.mem_sublists.1 hA, hB, hlen⟩

theorem lcsLength_le (a b : List α) : lcsLength a b ≤ a.length ∧ lcsLength a b ≤ b.length := by
  obtain ⟨l, hA, hB, hlen⟩ := exists_lcs a b
  rw [← hlen]
  exact ⟨hA.length_le, hB.length_le⟩

theorem lcsLength_cons_cons (x : α) (a b : List α) :
    lcsLength (x :: a) (x :: b) = lcsLength a b + 1 := by
  apply Nat.le_antisymm
  · obtain ⟨l, hA, hB, hlen⟩ := exists_lcs (x :: a) (x :: b)
    -- Without its first element, a common subsequence fits behind `x`.
    have htail : l.tail.length ≤ lcsLength a b := length_le_lcsLength hA.tail hB.tail
    rw [List.length_tail] at htail
    omega
  · obtain ⟨l, hA, hB, hlen⟩ := exists_lcs a b
    have hcons := length_le_lcsLength (hA.cons_cons x) (hB.cons_cons x)
    rw [List.length_cons] at hcons
    omega

theorem lcsLength_append_left (start a b : List α) :
    lcsLength (start ++ a) (start ++ b) = start.length + lcsLength a b := by
  induction start with
  | nil => simp
  | cons x start ih =>
    rw [List.cons_append, List.cons_append, lcsLength_cons_cons, ih, List.length_cons]
    omega

theorem lcsLength_reverse_le (a b : List α) : lcsLength a b ≤ lcsLength a.reverse b.reverse := by
  obtain ⟨l, hA, hB, hlen⟩ := exists_lcs a b
  rw [← hlen, ← List.length_reverse]
  exact length_le_lcsLength hA.reverse hB.reverse

theorem lcsLength_reverse (a b : List α) : lcsLength a.reverse b.reverse = lcsLength a b := by
  apply Nat.le_antisymm
  · have hle := lcsLength_reverse_le a.reverse b.reverse
    rw [List.reverse_reverse, List.reverse_reverse] at hle
    exact hle
  · exact lcsLength_reverse_le a b

theorem lcsLength_append_right (a b finish : List α) :
    lcsLength (a ++ finish) (b ++ finish) = lcsLength a b + finish.length := by
  rw [← lcsLength_reverse, List.reverse_append, List.reverse_append, lcsLength_append_left,
    lcsLength_reverse, List.length_reverse, Nat.add_comm]

/-! ## Edit distance -/

theorem editDistance_add (a b : List α) :
    editDistance a b + 2 * lcsLength a b = a.length + b.length := by
  have hle := lcsLength_le a b
  rw [editDistance]
  omega

/-- What both sequences start and end with does not count. -/
theorem Stripped.editDistance_eq (h : Stripped a b start middleA middleB finish) :
    editDistance a b = editDistance middleA middleB := by
  have hlcs : lcsLength a b = start.length + (lcsLength middleA middleB + finish.length) := by
    rw [h.left, h.right, lcsLength_append_left, lcsLength_append_right]
  have hlenA : a.length = start.length + (middleA.length + finish.length) := by
    rw [h.left, List.length_append, List.length_append]
  have hlenB : b.length = start.length + (middleB.length + finish.length) := by
    rw [h.right, List.length_append, List.length_append]
  rw [editDistance, editDistance]
  omega

/-- No script does with less than the edit distance. -/
theorem editDistance_le_scriptCost (h : EditPath a b ops 0 0 a.length b.length) :
    editDistance a b ≤ scriptCost ops := by
  obtain ⟨l, hA, hB, hcost⟩ := h.exists_kept
  rw [List.drop_zero] at hA hB
  have hle := length_le_lcsLength hA hB
  have hadd := editDistance_add a b
  omega

/-- Some script does with the edit distance. -/
theorem reaches_editDistance (a b : List α) :
    Reaches a b (editDistance a b) a.length b.length := by
  obtain ⟨l, hA, hB, hlen⟩ := exists_lcs a b
  obtain ⟨ops, hpath, hcost⟩ := exists_script_keeping (a := a) (b := b) (i := 0) (j := 0) l
    (by rwa [List.drop_zero]) (by rwa [List.drop_zero]) (Nat.zero_le _) (Nat.zero_le _)
  have hadd := editDistance_add a b
  have heq : editDistance a b = 0 + scriptCost ops := by omega
  rw [heq]
  exact Reaches.corner.follow hpath

end StableFormat
