import StableFormat.Diff.FileDiff
import StableFormat.Proofs.Diff.Alignment

/-!
# Proofs: the hunks of a difference

The lines of a hunk are given by its edits: what lies between them, what they remove and what they
add. They read both texts from the start of the hunk to its end. The loop that makes them is followed
by a cursor, which is ahead of the edit at hand, within it, or behind the last edit of the hunk.
-/

namespace StableFormat

variable {a b : List String} {d : FileDiff} {edit e : Edit} {rest es : List Edit}
  {endA endB lineA lineB i j i' j' m n : ℕ}

/-- The lines of a hunk read `a` from `i` to `i'` and `b` from `j` to `j'`. -/
inductive Reads (a b : List String) : List HunkLine → (i j i' j' : ℕ) → Prop
  | done (i j : ℕ) : Reads a b [] i j i j
  | context {line : String} {lines : List HunkLine} {i j i' j' : ℕ} (ha : a[i]? = some line)
      (hb : b[j]? = some line) (rest : Reads a b lines (i + 1) (j + 1) i' j') :
      Reads a b (.context line :: lines) i j i' j'
  | removed {line : String} {lines : List HunkLine} {i j i' j' : ℕ} (ha : a[i]? = some line)
      (rest : Reads a b lines (i + 1) j i' j') : Reads a b (.removed line :: lines) i j i' j'
  | added {line : String} {lines : List HunkLine} {i j i' j' : ℕ} (hb : b[j]? = some line)
      (rest : Reads a b lines i (j + 1) i' j') : Reads a b (.added line :: lines) i j i' j'

/-! ## What the lines of a hunk are -/

/-- The elements from position `i` to before position `m`. -/
def slice {α : Type} (xs : List α) (i m : ℕ) : List α :=
  (xs.take m).drop i

theorem slice_eq_nil {α : Type} {xs : List α} (h : m ≤ i) : slice xs i m = [] := by
  rw [slice, List.drop_eq_nil_iff, List.length_take]
  omega

theorem slice_cons {α : Type} {xs : List α} {x : α} (hx : xs[i]? = some x) (h : i < m) :
    slice xs i m = x :: slice xs (i + 1) m := by
  have hget : (xs.take m)[i]? = some x := by rw [List.getElem?_take, if_pos h, hx]
  obtain ⟨hlt, rfl⟩ := List.getElem?_eq_some_iff.1 hget
  exact List.drop_eq_getElem_cons hlt

/-- The lines that an edit removes, and behind them those that it adds. -/
def changedLines (a b : List String) (e : Edit) : List HunkLine :=
  (slice a e.beginA e.endA).map .removed ++ (slice b e.beginB e.endB).map .added

/-- The lines of a hunk from line `i` of the first text to before line `stop`: context up to the next
edit, the lines that it changes, and context behind the last edit. -/
def hunkBody (a b : List String) (stop : ℕ) : (i : ℕ) → List Edit → List HunkLine
  | i, [] => (slice a i stop).map .context
  | i, e :: es =>
    (slice a i e.beginA).map .context ++ (changedLines a b e ++ hunkBody a b stop e.endA es)

theorem Reads.append {front back : List HunkLine} {m n : ℕ} (h : Reads a b front i j m n)
    (h' : Reads a b back m n i' j') : Reads a b (front ++ back) i j i' j' := by
  induction h with
  | done i j => exact h'
  | context ha hb rest ih => exact .context ha hb (ih h')
  | removed ha rest ih => exact .removed ha (ih h')
  | added hb rest ih => exact .added hb (ih h')

theorem InStep.reads (h : InStep a b i j i' j') :
    Reads a b ((slice a i i').map .context) i j i' j' := by
  obtain ⟨n, rfl, rfl⟩ : ∃ n, i' = i + n ∧ j' = j + n :=
    ⟨i' - i, by have := h.bounds; omega, by have := h.bounds; omega⟩
  induction n generalizing i j with
  | zero =>
    rw [slice_eq_nil (by omega)]
    exact .done i j
  | succ n ih =>
    obtain ⟨x, ha, hb⟩ := h.first (by omega)
    have hi : i + (n + 1) = i + 1 + n := by omega
    have hj : j + (n + 1) = j + 1 + n := by omega
    have hrest := (h.split (n := 1) (by omega)).2
    rw [hi, hj] at hrest ⊢
    rw [slice_cons ha (by omega)]
    exact .context ha hb (ih hrest)

theorem reads_removed (hlen : i' ≤ a.length) (hle : i ≤ i') :
    Reads a b ((slice a i i').map .removed) i j i' j := by
  obtain ⟨n, rfl⟩ := Nat.exists_eq_add_of_le hle
  induction n generalizing i with
  | zero =>
    rw [slice_eq_nil (by omega)]
    exact .done i j
  | succ n ih =>
    have hlt : i < a.length := by omega
    have hx : a[i]? = some a[i] := List.getElem?_eq_getElem hlt
    have hi : i + (n + 1) = i + 1 + n := by omega
    rw [slice_cons hx (by omega), hi]
    exact .removed hx (ih (by omega) (by omega))

theorem reads_added (hlen : j' ≤ b.length) (hle : j ≤ j') :
    Reads a b ((slice b j j').map .added) i j i j' := by
  obtain ⟨n, rfl⟩ := Nat.exists_eq_add_of_le hle
  induction n generalizing j with
  | zero =>
    rw [slice_eq_nil (by omega)]
    exact .done i j
  | succ n ih =>
    have hlt : j < b.length := by omega
    have hx : b[j]? = some b[j] := List.getElem?_eq_getElem hlt
    have hj : j + (n + 1) = j + 1 + n := by omega
    rw [slice_cons hx (by omega), hj]
    exact .added hx (ih (by omega) (by omega))

theorem Edit.Inside.reads (h : e.Inside a b) :
    Reads a b (changedLines a b e) e.beginA e.beginB e.endA e.endB :=
  (reads_removed h.lengthA h.leA).append (reads_added h.lengthB h.leB)

/-- The lines of a hunk read both texts. -/
theorem Aligned.reads (h : Aligned a b es i j i' j') :
    Reads a b (hunkBody a b i' i es) i j i' j' := by
  induction h with
  | done same => exact same.reads
  | edit same inside apart rest ih => exact same.reads.append (inside.reads.append ih)

/-! ## The loop that makes them -/

/-- Where the loop of a hunk that ends at `endA` and `endB` is, with the lines up to `lineA` and
`lineB` done. -/
inductive Cursor (a b : List String) (endA endB : ℕ) (edit : Edit) (rest : List Edit)
    (lineA lineB : ℕ) : Prop
  | ahead (hA : lineA < edit.beginA) (h : Aligned a b (edit :: rest) lineA lineB endA endB)
  | within (inside : edit.Inside a b) (hA : edit.beginA ≤ lineA ∧ lineA ≤ edit.endA)
      (hB : edit.beginB ≤ lineB ∧ lineB ≤ edit.endB)
      (unfinished : lineA < edit.endA ∨ lineB < edit.endB)
      (h : Aligned a b rest edit.endA edit.endB endA endB)
  | behind (last : rest = []) (hbegin : edit.beginA ≤ edit.endA) (hA : edit.endA ≤ lineA)
      (hB : edit.endB ≤ lineB)
      (same : InStep a b lineA lineB endA endB)

/-- The lines that the loop has still to make. -/
def pendingLines (a b : List String) (stop lineA lineB : ℕ) (edit : Edit) (rest : List Edit) :
    List HunkLine :=
  (slice a lineA edit.beginA).map .context ++
    ((slice a (max lineA edit.beginA) edit.endA).map .removed ++
      ((slice b (max lineB edit.beginB) edit.endB).map .added ++
        hunkBody a b stop (max lineA edit.endA) rest))

theorem pendingLines_of_aligned (h : Aligned a b (edit :: rest) lineA lineB endA endB) :
    pendingLines a b endA lineA lineB edit rest = hunkBody a b endA lineA (edit :: rest) := by
  cases h with
  | edit same inside apart hrest =>
    have hsame := same.bounds
    have hleA := inside.leA
    have hbeginA : max lineA edit.beginA = edit.beginA := by omega
    have hbeginB : max lineB edit.beginB = edit.beginB := by omega
    have hendA : max lineA edit.endA = edit.endA := by omega
    rw [pendingLines, hunkBody, changedLines, hbeginA, hbeginB, hendA, List.append_assoc]

/-- Behind an edit, the lines from there to the next one are left. -/
theorem pendingLines_done (hA : edit.beginA ≤ lineA ∧ edit.endA ≤ lineA)
    (hB : edit.endB ≤ lineB) (stop : ℕ) :
    pendingLines a b stop lineA lineB edit rest = hunkBody a b stop lineA rest := by
  have hendA : max lineA edit.endA = lineA := by omega
  rw [pendingLines, slice_eq_nil hA.1, slice_eq_nil (by omega), slice_eq_nil (by omega), hendA]
  rfl

/-- Where the loop stands when the edit at hand is taken: nothing is lost if it is the next one. -/
theorem pendingLines_advance (inside : edit.Inside a b)
    (h : Aligned a b rest edit.endA edit.endB endA endB) (lineA lineB : ℕ) :
    pendingLines a b endA lineA lineB (FileDiff.advanceEdit lineA lineB edit rest).1
        (FileDiff.advanceEdit lineA lineB edit rest).2 =
      pendingLines a b endA lineA lineB edit rest := by
  cases rest with
  | nil => rfl
  | cons next later =>
    rw [FileDiff.advanceEdit]
    by_cases hdone : lineA = edit.endA ∧ lineB = edit.endB
    · rw [if_pos hdone]
      obtain ⟨rfl, rfl⟩ := hdone
      rw [pendingLines_done ⟨inside.leA, le_rfl⟩ le_rfl]
      exact pendingLines_of_aligned h
    · rw [if_neg hdone]

theorem Cursor.of_aligned (h : Aligned a b (edit :: rest) lineA lineB endA endB) :
    Cursor a b endA endB edit rest lineA lineB := by
  cases h with
  | edit same inside apart hrest =>
    obtain ⟨hA, hB, hsync⟩ := same.bounds
    by_cases hlt : lineA < edit.beginA
    · exact .ahead hlt (.edit same inside apart hrest)
    · have hleA := inside.leA
      have hleB := inside.leB
      have hchanges := inside.changes
      exact .within inside ⟨by omega, by omega⟩ ⟨by omega, by omega⟩ (by omega) hrest

/-- The next edit is taken up as soon as the one at hand is done. -/
theorem Cursor.advance (inside : edit.Inside a b) (hA : edit.beginA ≤ lineA ∧ lineA ≤ edit.endA)
    (hB : edit.beginB ≤ lineB ∧ lineB ≤ edit.endB)
    (h : Aligned a b rest edit.endA edit.endB endA endB) :
    Cursor a b endA endB (FileDiff.advanceEdit lineA lineB edit rest).1
      (FileDiff.advanceEdit lineA lineB edit rest).2 lineA lineB := by
  by_cases hdone : lineA = edit.endA ∧ lineB = edit.endB
  · obtain ⟨rfl, rfl⟩ := hdone
    cases rest with
    | nil => exact .behind rfl inside.leA le_rfl le_rfl (Aligned.nil_iff.1 h)
    | cons next later =>
      rw [FileDiff.advanceEdit, if_pos ⟨rfl, rfl⟩]
      exact .of_aligned h
  · have hunfinished : lineA < edit.endA ∨ lineB < edit.endB := by omega
    cases rest with
    | nil => exact .within inside hA hB hunfinished h
    | cons next later =>
      rw [FileDiff.advanceEdit, if_neg hdone]
      exact .within inside hA hB hunfinished h

/-- A line that both texts have. -/
theorem Cursor.context (h : Cursor a b endA endB edit rest lineA lineB)
    (hlines : lineA < endA ∨ lineB < endB)
    (houtside : lineA < edit.beginA ∨ (edit.endA ≤ lineA ∧ edit.endB ≤ lineB)) :
    ∃ x, a[lineA]? = some x ∧
      Cursor a b endA endB (FileDiff.advanceEdit (lineA + 1) (lineB + 1) edit rest).1
        (FileDiff.advanceEdit (lineA + 1) (lineB + 1) edit rest).2 (lineA + 1) (lineB + 1) ∧
      pendingLines a b endA lineA lineB edit rest =
        .context x :: pendingLines a b endA (lineA + 1) (lineB + 1)
          (FileDiff.advanceEdit (lineA + 1) (lineB + 1) edit rest).1
          (FileDiff.advanceEdit (lineA + 1) (lineB + 1) edit rest).2 := by
  cases h with
  | ahead hA h =>
    have hpending := pendingLines_of_aligned h
    cases h with
    | edit same inside apart hrest =>
      obtain ⟨x, ha, -⟩ := same.first hA
      have hsame := same.bounds
      have hchanges := inside.changes
      have hleA := inside.leA
      have hleB := inside.leB
      have hnext := Aligned.edit (same.split (n := 1) (by omega)).2 inside apart hrest
      have hstay : FileDiff.advanceEdit (lineA + 1) (lineB + 1) edit rest = (edit, rest) := by
        cases rest with
        | nil => rfl
        | cons next later => rw [FileDiff.advanceEdit, if_neg (by omega)]
      rw [hstay, hpending, pendingLines_of_aligned hnext, hunkBody, slice_cons ha hA]
      exact ⟨x, ha, .of_aligned hnext, rfl⟩
  | within inside hA hB unfinished h => omega
  | behind last hbegin hA hB same =>
    have hsame := same.bounds
    have hlt : lineA < endA := by omega
    obtain ⟨x, ha, -⟩ := same.first hlt
    subst last
    have hrest := (same.split (n := 1) (by omega)).2
    have hpending : ∀ k m, edit.endA ≤ k → edit.endB ≤ m →
        pendingLines a b endA k m edit [] = (slice a k endA).map .context :=
      fun k m hk hm => pendingLines_done ⟨hbegin.trans hk, hk⟩ hm endA
    refine ⟨x, ha, .behind rfl hbegin (Nat.le_succ_of_le hA) (Nat.le_succ_of_le hB) hrest, ?_⟩
    rw [FileDiff.advanceEdit, hpending _ _ hA hB, slice_cons ha hlt,
      hpending _ _ (Nat.le_succ_of_le hA) (Nat.le_succ_of_le hB)]
    rfl

/-- A line that an edit changes. -/
theorem Cursor.inside (h : Cursor a b endA endB edit rest lineA lineB)
    (houtside : ¬ (lineA < edit.beginA ∨ (edit.endA ≤ lineA ∧ edit.endB ≤ lineB))) :
    edit.Inside a b ∧ (edit.beginA ≤ lineA ∧ lineA ≤ edit.endA) ∧
      (edit.beginB ≤ lineB ∧ lineB ≤ edit.endB) ∧
      Aligned a b rest edit.endA edit.endB endA endB := by
  cases h with
  | ahead hA h => omega
  | within inside hA hB unfinished h => exact ⟨inside, hA, hB, h⟩
  | behind last hbegin hA hB same => omega

theorem pendingLines_removed {x : String} (hx : a[lineA]? = some x) (hbegin : edit.beginA ≤ lineA)
    (hend : lineA < edit.endA) (stop lineB : ℕ) :
    pendingLines a b stop lineA lineB edit rest =
      .removed x :: pendingLines a b stop (lineA + 1) lineB edit rest := by
  have hbeginA : max lineA edit.beginA = lineA := by omega
  have hbeginA' : max (lineA + 1) edit.beginA = lineA + 1 := by omega
  have hendA : max lineA edit.endA = edit.endA := by omega
  have hendA' : max (lineA + 1) edit.endA = edit.endA := by omega
  rw [pendingLines, pendingLines, slice_eq_nil hbegin, slice_eq_nil (Nat.le_succ_of_le hbegin),
    hbeginA, hbeginA', hendA, hendA', slice_cons hx hend]
  rfl

theorem pendingLines_added {x : String} (hx : b[lineB]? = some x) (hA : edit.beginA ≤ lineA)
    (hdone : edit.endA ≤ lineA) (hbegin : edit.beginB ≤ lineB) (hend : lineB < edit.endB)
    (stop : ℕ) :
    pendingLines a b stop lineA lineB edit rest =
      .added x :: pendingLines a b stop lineA (lineB + 1) edit rest := by
  have hbeginB : max lineB edit.beginB = lineB := by omega
  have hbeginB' : max (lineB + 1) edit.beginB = lineB + 1 := by omega
  have hremoved : slice a (max lineA edit.beginA) edit.endA = [] := slice_eq_nil (by omega)
  rw [pendingLines, pendingLines, slice_eq_nil hA, hremoved, hbeginB, hbeginB', slice_cons hx hend]
  rfl

/-- A line that the edit at hand removes. -/
theorem Cursor.removed (h : Cursor a b endA endB edit rest lineA lineB)
    (houtside : ¬ (lineA < edit.beginA ∨ (edit.endA ≤ lineA ∧ edit.endB ≤ lineB)))
    (hremoves : lineA < edit.endA) :
    ∃ x, a[lineA]? = some x ∧
      Cursor a b endA endB (FileDiff.advanceEdit (lineA + 1) lineB edit rest).1
        (FileDiff.advanceEdit (lineA + 1) lineB edit rest).2 (lineA + 1) lineB ∧
      pendingLines a b endA lineA lineB edit rest =
        .removed x :: pendingLines a b endA (lineA + 1) lineB
          (FileDiff.advanceEdit (lineA + 1) lineB edit rest).1
          (FileDiff.advanceEdit (lineA + 1) lineB edit rest).2 := by
  obtain ⟨inside, hA, hB, hrest⟩ := h.inside houtside
  have hlen := inside.lengthA
  have hx := List.getElem?_eq_getElem (show lineA < a.length by omega)
  refine ⟨a[lineA], hx, .advance inside (by omega) hB hrest, ?_⟩
  rw [pendingLines_advance inside hrest, pendingLines_removed hx hA.1 hremoves]

/-- A line that the edit at hand adds. -/
theorem Cursor.added (h : Cursor a b endA endB edit rest lineA lineB)
    (houtside : ¬ (lineA < edit.beginA ∨ (edit.endA ≤ lineA ∧ edit.endB ≤ lineB)))
    (hremoves : ¬ lineA < edit.endA) :
    ∃ x, b[lineB]? = some x ∧
      Cursor a b endA endB (FileDiff.advanceEdit lineA (lineB + 1) edit rest).1
        (FileDiff.advanceEdit lineA (lineB + 1) edit rest).2 lineA (lineB + 1) ∧
      pendingLines a b endA lineA lineB edit rest =
        .added x :: pendingLines a b endA lineA (lineB + 1)
          (FileDiff.advanceEdit lineA (lineB + 1) edit rest).1
          (FileDiff.advanceEdit lineA (lineB + 1) edit rest).2 := by
  obtain ⟨inside, hA, hB, hrest⟩ := h.inside houtside
  have hlen := inside.lengthB
  have hx := List.getElem?_eq_getElem (show lineB < b.length by omega)
  refine ⟨b[lineB], hx, .advance inside hA (by omega) hrest, ?_⟩
  rw [pendingLines_advance inside hrest,
    pendingLines_added hx hA.1 (by omega) hB.1 (by omega)]

theorem Cursor.le (h : Cursor a b endA endB edit rest lineA lineB) :
    lineA ≤ endA ∧ lineB ≤ endB := by
  cases h with
  | ahead hA h => exact h.le
  | within inside hA hB unfinished h =>
    have hle := h.le
    omega
  | behind last hbegin hA hB same => exact ⟨same.bounds.1, same.bounds.2.1⟩

/-- At the end of a hunk, the last edit is at hand and done. -/
theorem Cursor.at_end (h : Cursor a b endA endB edit rest endA endB) :
    rest = [] ∧ edit.beginA ≤ edit.endA ∧ edit.endA ≤ endA ∧ edit.endB ≤ endB := by
  cases h with
  | ahead hA h =>
    cases h with
    | edit same inside apart hrest =>
      have hsame := same.bounds
      have hleA := inside.leA
      have hrest := hrest.le
      omega
  | within inside hA hB unfinished h =>
    have hle := h.le
    omega
  | behind last hbegin hA hB same => exact ⟨last, hbegin, hA, hB⟩

/-- At the end of a hunk no lines are left. -/
theorem Cursor.pending_end (h : Cursor a b endA endB edit rest endA endB) :
    pendingLines a b endA endA endB edit rest = [] := by
  obtain ⟨hrest, hbegin, hA, hB⟩ := h.at_end
  rw [pendingLines_done ⟨hbegin.trans hA, hA⟩ hB, hrest, hunkBody, slice_eq_nil le_rfl]
  rfl

/-- The loop makes all lines that are left to it, and stays inside both texts. -/
theorem hunkLines_eq (h : Cursor d.a.toList d.b.toList endA endB edit rest lineA lineB) :
    d.hunkLines endA endB lineA lineB edit rest =
      .ok (pendingLines d.a.toList d.b.toList endA lineA lineB edit rest) := by
  -- The line at a cursor exists, and the loop reads it.
  have hread {xs : Array String} {i : ℕ} {x : String} (hx : xs.toList[i]? = some x) :
      ∃ hi : i < xs.size, xs[i] = x := by
    rwa [Array.getElem?_toList, Array.getElem?_eq_some_iff] at hx
  fun_induction FileDiff.hunkLines d endA endB lineA lineB edit rest with
  | case1 lineA lineB edit rest hlines houtside hA e es hadvance ih =>
    obtain ⟨x, hx, hnext, hpending⟩ := h.context hlines houtside
    obtain ⟨_, rfl⟩ := hread hx
    rw [hadvance] at hnext hpending
    rw [ih hnext, hpending]
    rfl
  | case2 lineA lineB edit rest hlines houtside hA =>
    obtain ⟨x, hx, -, -⟩ := h.context hlines houtside
    exact absurd (hread hx).1 hA
  | case3 lineA lineB edit rest hlines houtside hremoves hA e es hadvance ih =>
    obtain ⟨x, hx, hnext, hpending⟩ := h.removed houtside hremoves
    obtain ⟨_, rfl⟩ := hread hx
    rw [hadvance] at hnext hpending
    rw [ih hnext, hpending]
    rfl
  | case4 lineA lineB edit rest hlines houtside hremoves hA =>
    obtain ⟨x, hx, -, -⟩ := h.removed houtside hremoves
    exact absurd (hread hx).1 hA
  | case5 lineA lineB edit rest hlines houtside hremoves hB e es hadvance ih =>
    obtain ⟨x, hx, hnext, hpending⟩ := h.added houtside hremoves
    obtain ⟨_, rfl⟩ := hread hx
    rw [hadvance] at hnext hpending
    rw [ih hnext, hpending]
    rfl
  | case6 lineA lineB edit rest hlines houtside hremoves hB =>
    obtain ⟨x, hx, -, -⟩ := h.added houtside hremoves
    exact absurd (hread hx).1 hB
  | case7 lineA lineB edit rest hlines =>
    obtain ⟨hA, hB⟩ := h.le
    obtain ⟨rfl, rfl⟩ : lineA = endA ∧ lineB = endB := by omega
    rw [h.pending_end]

/-! ## Edits that share a hunk -/

/-- The last edit of a group. -/
def lastOf (first : Edit) (rest : List Edit) : Edit :=
  rest.getLast?.getD first

theorem lastOf_cons (e next : Edit) (more : List Edit) :
    lastOf e (next :: more) = lastOf next more := by
  rw [lastOf, lastOf, List.getLast?_cons, Option.getD_some]

/-- What lies between the last edit of a hunk and its end is the same in both texts. -/
theorem Aligned.after_last (h : Aligned a b rest edit.endA edit.endB endA endB) :
    edit.endA ≤ (lastOf edit rest).endA ∧ edit.endB ≤ (lastOf edit rest).endB ∧
      InStep a b (lastOf edit rest).endA (lastOf edit rest).endB endA endB := by
  induction rest generalizing edit with
  | nil => exact ⟨le_rfl, le_rfl, Aligned.nil_iff.1 h⟩
  | cons next rest ih =>
    cases h with
    | edit same inside apart hrest =>
      obtain ⟨hA, hB, hsame⟩ := ih hrest
      have hbounds := same.bounds
      have hleA := inside.leA
      have hleB := inside.leB
      rw [lastOf_cons]
      exact ⟨by omega, by omega, hsame⟩

/-- Edits with something in front of them or behind them, which they are not. -/
theorem Aligned.cons_bounds (h : Aligned a b (edit :: rest) i j i' j') :
    (lastOf edit rest).endA ≤ i' ∧ (i < i' ∨ j < j') := by
  cases h with
  | edit same inside apart hrest =>
    obtain ⟨hlast, -, hsame⟩ := hrest.after_last
    have hbefore := same.bounds
    have hafter := hsame.bounds
    have hle := hrest.le
    have hleA := inside.leA
    have hleB := inside.leB
    have hchanges := inside.changes
    omega

/-- Groups of edits from `(i, j)` on to the ends. In a group, neighbouring edits are near each other;
two neighbouring groups are so far apart that the context around them does not overlap. -/
inductive Grouped (a b : List String) : List (Edit × List Edit) → (i j : ℕ) → Prop
  | done {i j : ℕ} (same : InStep a b i j a.length b.length) : Grouped a b [] i j
  | group {first : Edit} {rest : List Edit} {groups : List (Edit × List Edit)} {i j : ℕ}
      (edits : Aligned a b (first :: rest) i j (lastOf first rest).endA (lastOf first rest).endB)
      (near : (first :: rest).IsChain fun e next =>
        next.beginA ≤ e.endA + (2 * contextLines + 1) ∧
          next.beginB ≤ e.endB + (2 * contextLines + 1))
      (apart : ∀ next ∈ groups.head?,
        (lastOf first rest).endA + (2 * contextLines + 1) < next.1.beginA)
      (more : Grouped a b groups (lastOf first rest).endA (lastOf first rest).endB) :
      Grouped a b ((first, rest) :: groups) i j

theorem farApart_spec {next : Edit} (h : InStep a b e.endA e.endB next.beginA next.beginB) :
    FileDiff.farApart e next = .ok (decide (e.endA + (2 * contextLines + 1) < next.beginA)) := by
  obtain ⟨hA, hB, hgap⟩ := h.bounds
  rw [FileDiff.farApart, Checked.sub, if_pos hA, Checked.ok_bind, Checked.sub, if_pos hB,
    Checked.ok_bind]
  by_cases hfar : e.endA + (2 * contextLines + 1) < next.beginA
  · rw [if_neg (by omega), decide_eq_true hfar]
    exact congrArg Except.ok (decide_eq_true (by omega))
  · rw [if_pos (by omega), decide_eq_false hfar]
    rfl

theorem hunkEdits_spec (h : Aligned a b es i j a.length b.length) :
    ∃ groups, FileDiff.hunkEdits es = .ok groups ∧ groups.head?.map Prod.fst = es.head? ∧
      groups.flatMap (fun group => group.1 :: group.2) = es ∧ Grouped a b groups i j := by
  generalize hm : a.length = m at h
  generalize hn : b.length = n at h
  induction h with
  | done same =>
    subst hm hn
    exact ⟨[], rfl, rfl, rfl, .done same⟩
  | @edit e es i j m n same inside apart rest ih =>
    obtain ⟨groups, hgroups, hhead, hedits, hmore⟩ := ih hm hn
    rw [FileDiff.hunkEdits, hgroups, Checked.ok_bind]
    have hone : Aligned a b [e] i j e.endA e.endB :=
      .edit same inside (by simp) (.done (.refl _ _ _ _))
    subst hedits
    cases hmore with
    | done hsame =>
      exact ⟨[(e, [])], rfl, rfl, rfl, .group hone (by simp) (by simp) (.done hsame)⟩
    | @group next more others i j edits near hapart hothers =>
      have hgap : InStep a b e.endA e.endB next.beginA next.beginB := by
        cases edits with
        | edit same inside apart rest => exact same
      simp only [farApart_spec hgap, Checked.ok_bind]
      by_cases hfar : e.endA + (2 * contextLines + 1) < next.beginA
      · rw [decide_eq_true hfar, if_pos rfl]
        have hapart' : ∀ group ∈ ((next, more) :: others).head?,
            (lastOf e []).endA + (2 * contextLines + 1) < group.1.beginA := by
          rintro _ ⟨⟩
          exact hfar
        exact ⟨_, rfl, rfl, rfl,
          .group hone (by simp) hapart' (.group edits near hapart hothers)⟩
      · rw [decide_eq_false hfar, if_neg (by simp)]
        refine ⟨_, rfl, rfl, rfl, ?_⟩
        -- The group of `next` grows at its front and keeps its last edit.
        have hlast := lastOf_cons e next more
        have hfirst : ∀ e' ∈ (next :: more).head?, e.endA < e'.beginA := by
          rw [← hhead] at apart
          exact apart
        rw [← hlast] at edits hapart hothers
        have hnear : next.beginA ≤ e.endA + (2 * contextLines + 1) ∧
            next.beginB ≤ e.endB + (2 * contextLines + 1) := by
          have hbounds := hgap.bounds
          omega
        exact .group (.edit same inside hfirst edits) (near.cons_cons hnear) hapart hothers

/-! ## The hunks of a text -/

/-- Hunks from `(i, j)` on to the ends: what they leave out is the same in both texts. -/
inductive Hunked (a b : List String) : List Hunk → (i j : ℕ) → Prop
  | done {i j : ℕ} (same : InStep a b i j a.length b.length) : Hunked a b [] i j
  | hunk {h : Hunk} {hs : List Hunk} {i j : ℕ} (same : InStep a b i j h.startA h.startB)
      (reads : Reads a b h.lines h.startA h.startB h.endA h.endB)
      (more : Hunked a b hs h.endA h.endB) : Hunked a b (h :: hs) i j

/-- The context behind a group has the same length in both texts. -/
theorem Grouped.context_after {groups : List (Edit × List Edit)} (h : Grouped a b groups i j)
    (hapart : ∀ next ∈ groups.head?, i + (2 * contextLines + 1) < next.1.beginA) :
    ∃ n ≤ contextLines, InStep a b i j (i + n) (j + n) ∧
      min (i + contextLines) a.length = i + n ∧ min (j + contextLines) b.length = j + n := by
  cases h with
  | done same =>
    have hbounds := same.bounds
    refine ⟨min contextLines (a.length - i), by omega, ?_, by omega, by omega⟩
    exact (same.split (by omega)).1
  | group edits near hapart' more =>
    have hfar := hapart _ rfl
    cases edits with
    | edit same inside apart rest =>
      have hbounds := same.bounds
      have hinsideA := inside.leA
      have hinsideB := inside.leB
      have hlenA := inside.lengthA
      have hlenB := inside.lengthB
      simp only at hfar
      refine ⟨contextLines, le_rfl, (same.split (by omega)).1, by omega, by omega⟩

/-- The context in front of a group has the same length in both texts. -/
theorem InStep.context_before (h : InStep a b i j m n)
    (hroom : i + contextLines ≤ m ∨ (i = 0 ∧ j = 0)) :
    InStep a b i j (m - contextLines) (n - contextLines) ∧
      InStep a b (m - contextLines) (n - contextLines) m n := by
  have hbounds := h.bounds
  obtain ⟨k, hm, hn⟩ : ∃ k, m - contextLines = i + k ∧ n - contextLines = j + k :=
    ⟨m - contextLines - i, by omega, by omega⟩
  rw [hm, hn]
  exact h.split (by omega)

/-- The hunk of a group of edits. -/
def hunkAround (d : FileDiff) (first : Edit) (rest : List Edit) : Hunk :=
  let startA := first.beginA - contextLines
  let endA := min ((lastOf first rest).endA + contextLines) d.a.size
  { startA := startA
    endA := endA
    startB := first.beginB - contextLines
    endB := min ((lastOf first rest).endB + contextLines) d.b.size
    lines := hunkBody d.a.toList d.b.toList endA startA (first :: rest) }

/-- The edits of a group lead from the start of its hunk to the end. -/
def AlignedAround (d : FileDiff) (first : Edit) (rest : List Edit) : Prop :=
  Aligned d.a.toList d.b.toList (first :: rest) (hunkAround d first rest).startA
    (hunkAround d first rest).startB (hunkAround d first rest).endA (hunkAround d first rest).endB

theorem aligned_hunkAround {first : Edit}
    (edits : Aligned d.a.toList d.b.toList (first :: rest) i j (lastOf first rest).endA
      (lastOf first rest).endB)
    (hroom : i + contextLines ≤ first.beginA ∨ (i = 0 ∧ j = 0))
    (hsame : InStep d.a.toList d.b.toList (lastOf first rest).endA (lastOf first rest).endB
      (hunkAround d first rest).endA (hunkAround d first rest).endB) :
    InStep d.a.toList d.b.toList i j (hunkAround d first rest).startA
        (hunkAround d first rest).startB ∧
      AlignedAround d first rest := by
  cases edits with
  | edit same inside apart hrest =>
    obtain ⟨hbefore, hstart⟩ := same.context_before hroom
    exact ⟨hbefore, (Aligned.edit hstart inside apart hrest).after hsame⟩

theorem hunkOf_eq {first : Edit} (h : AlignedAround d first rest) :
    d.hunkOf first rest = .ok (hunkAround d first rest) := by
  have hlines := hunkLines_eq (.of_aligned h)
  rw [pendingLines_of_aligned h] at hlines
  obtain ⟨hleA, hleB⟩ := h.le
  simp only [hunkAround, lastOf] at hlines hleA hleB
  simp only [FileDiff.hunkOf, Checked.sub, if_pos hleA, if_pos hleB, Checked.ok_bind, hlines]
  rfl

theorem hunks_of_groups {groups : List (Edit × List Edit)}
    (h : Grouped d.a.toList d.b.toList groups i j) (hsame : InStep d.a.toList d.b.toList i j m n)
    (hm : m ≤ d.a.size)
    (hroom : ∀ next ∈ groups.head?, m + contextLines ≤ next.1.beginA ∨ (m = 0 ∧ n = 0)) :
    groups.mapM (fun (first, rest) => d.hunkOf first rest) =
        .ok (groups.map fun group => hunkAround d group.1 group.2) ∧
      Hunked d.a.toList d.b.toList (groups.map fun group => hunkAround d group.1 group.2) m n ∧
      ∀ group ∈ groups, AlignedAround d group.1 group.2 := by
  induction h generalizing m n with
  | done same =>
    rw [← Array.length_toList] at hm
    exact ⟨rfl, .done (same.cut hsame hm), by simp⟩
  | @group first rest groups i j edits near apart more ih =>
    obtain ⟨c, hc, hcontext, hendA, hendB⟩ := more.context_after apart
    have hroom' : m + contextLines ≤ first.beginA ∨ (m = 0 ∧ n = 0) := hroom _ rfl
    have hfrom : Aligned d.a.toList d.b.toList (first :: rest) m n (lastOf first rest).endA
        (lastOf first rest).endB := by
      cases edits with
      | edit same inside hapart hrest => exact .edit (same.cut hsame (by omega)) inside hapart hrest
    rw [Array.length_toList] at hendA hendB
    rw [← hendA, ← hendB] at hcontext
    obtain ⟨hsame', haligned⟩ := aligned_hunkAround hfrom hroom' hcontext
    -- The next group is so far away that its context begins behind the one of this group.
    obtain ⟨hhunks, hmore, hothers⟩ := ih hcontext (by omega) fun next hnext => by
      have hapart := apart next hnext
      omega
    refine ⟨?_, .hunk hsame' haligned.reads hmore, List.forall_mem_cons.2 ⟨haligned, hothers⟩⟩
    rw [List.mapM_cons]
    simp only [hunkOf_eq haligned, hhunks, Checked.ok_bind]
    rfl

/-- The hunks of a difference can be made, one for each group of edits. -/
theorem hunks_eq (h : Aligned d.a.toList d.b.toList d.edits 0 0 d.a.size d.b.size) :
    ∃ groups, Grouped d.a.toList d.b.toList groups 0 0 ∧
      groups.flatMap (fun group => group.1 :: group.2) = d.edits ∧
      d.hunks = .ok (groups.map fun group => hunkAround d group.1 group.2) ∧
      Hunked d.a.toList d.b.toList (groups.map fun group => hunkAround d group.1 group.2) 0 0 ∧
      ∀ group ∈ groups, AlignedAround d group.1 group.2 := by
  rw [← Array.length_toList, ← Array.length_toList] at h
  obtain ⟨groups, hgroups, -, hedits, hgrouped⟩ := hunkEdits_spec h
  obtain ⟨hhunks, hrest⟩ := hunks_of_groups hgrouped (.refl _ _ _ _) (Nat.zero_le _)
    fun next _ => Or.inr ⟨rfl, rfl⟩
  refine ⟨groups, hgrouped, hedits, ?_, hrest⟩
  rw [FileDiff.hunks, hgroups, Checked.ok_bind]
  exact hhunks

/-- The edits between two texts say where their lines differ. -/
theorem aligned_compute (original expected : String) :
    Aligned (Text.linesOf original) (Text.linesOf expected)
      (FileDiff.compute original expected).edits 0 0 (Text.linesOf original).length
      (Text.linesOf expected).length :=
  editsWithin_aligned maxEditDistance (Text.linesOf original) (Text.linesOf expected)

/-- The hunks read both texts from start to end. -/
theorem hunks_spec (h : Aligned d.a.toList d.b.toList d.edits 0 0 d.a.size d.b.size) :
    ∃ hs, d.hunks = .ok hs ∧ Hunked d.a.toList d.b.toList hs 0 0 := by
  obtain ⟨groups, -, -, hhunks, hhunked, -⟩ := hunks_eq h
  exact ⟨_, hhunks, hhunked⟩

end StableFormat
