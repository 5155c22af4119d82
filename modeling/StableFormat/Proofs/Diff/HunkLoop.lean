import StableFormat.Proofs.Diff.HunkShape

/-!
# Proofs: the loops that show the hunks

The hunks are shown by two loops. The outer one goes over the edits by their number and looks ahead to
the last edit that shares the hunk; the inner one goes along both texts at once and changes to the next
edit where the one at hand ends. Here both loops are followed pass by pass, with every access and
every difference checked. They come to an end, and the hunks that they show are those of the
difference. Both cursors of the inner loop come to the end of the hunk and not beyond it. They come
there in the same pass if the hunk ends with an unchanged line; otherwise one of them waits for the
other.
-/

namespace StableFormat

/-! ## The header -/

namespace Hunk

/-- A range of lines in a header. -/
def checkedRange (first length : ℕ) : Checked String :=
  match length with
  | 0 => do return toString (← Checked.sub first 1) ++ ",0"
  | 1 => return toString first
  | _ => return toString first ++ "," ++ toString length

/-- The header of a hunk. -/
def checkedHeader (h : Hunk) : Checked String := do
  let lengthA ← Checked.sub h.endA h.startA
  let lengthB ← Checked.sub h.endB h.startB
  return "@@ -" ++ (← checkedRange (h.startA + 1) lengthA) ++ " +" ++
    (← checkedRange (h.startB + 1) lengthB) ++ " @@"

theorem checkedRange_succ (first length : ℕ) :
    checkedRange (first + 1) length = .ok (range (first + 1) length) := by
  rcases length with _ | _ | length
  · rw [checkedRange, Checked.sub, if_pos (Nat.le_add_left 1 first)]
    rfl
  · rfl
  · rfl

theorem checkedHeader_eq {h : Hunk} (hA : h.startA ≤ h.endA) (hB : h.startB ≤ h.endB) :
    h.checkedHeader = .ok h.header := by
  simp only [checkedHeader, Checked.sub, if_pos hA, if_pos hB, Checked.ok_bind, checkedRange_succ]
  rfl

end Hunk

namespace FileDiff

/-! ## The loops -/

/-- Where the inner loop stands: the number of the edit at hand, and the lines of both texts up to
which it has come. -/
structure Point where
  edit : ℕ
  lineA : ℕ
  lineB : ℕ
  deriving DecidableEq, Repr

/-- The edit of a number. -/
def editAt (d : FileDiff) (i : ℕ) : Checked Edit :=
  Checked.read d.edits.toArray i

/-- The number of the last edit that shares a hunk with the edit `i`. -/
def combinedEnd (d : FileDiff) (i : ℕ) : Checked ℕ :=
  if _h : i + 1 < d.edits.length then do
    let current ← d.editAt i
    let next ← d.editAt (i + 1)
    if ← farApart current next then return i else combinedEnd d (i + 1)
  else return i
termination_by d.edits.length - i

/-- The line that is shown next, and the lines up to which both texts are done then. -/
def nextLine (d : FileDiff) (edit : Edit) (lineA lineB : ℕ) : Checked (HunkLine × ℕ × ℕ) :=
  if lineA < edit.beginA then do
    return (.context (← Checked.read d.a lineA), lineA + 1, lineB + 1)
  else if lineA < edit.endA then do
    return (.removed (← Checked.read d.a lineA), lineA + 1, lineB)
  else if lineB < edit.endB then do
    return (.added (← Checked.read d.b lineB), lineA, lineB + 1)
  else do
    return (.context (← Checked.read d.a lineA), lineA + 1, lineB + 1)

/-- Goes on to the next edit of the hunk where `edit` is done. -/
def moveOn (d : FileDiff) (last : ℕ) (edit : Edit) (p : Point) : Checked Point :=
  if p.lineA = edit.endA ∧ p.lineB = edit.endB ∧ p.edit < last then do
    let _ ← d.editAt (p.edit + 1)
    return { p with edit := p.edit + 1 }
  else return p

/-- One pass of the inner loop of a hunk whose last edit has the number `last`. -/
def pass (d : FileDiff) (last : ℕ) (p : Point) : Checked (HunkLine × Point) := do
  let edit ← d.editAt p.edit
  let (line, lineA, lineB) ← d.nextLine edit p.lineA p.lineB
  return (line, ← d.moveOn last edit ⟨p.edit, lineA, lineB⟩)

/-- A run of the inner loop from one point to another, with the line of each pass and the point behind
it. -/
inductive Passes (d : FileDiff) (last endA endB : ℕ) :
    Point → List (HunkLine × Point) → Point → Prop
  | done {p : Point} (h : ¬ (p.lineA < endA ∨ p.lineB < endB)) : Passes d last endA endB p [] p
  | pass {p q r : Point} {line : HunkLine} {passes : List (HunkLine × Point)}
      (h : p.lineA < endA ∨ p.lineB < endB) (hpass : d.pass last p = .ok (line, q))
      (more : Passes d last endA endB q passes r) :
      Passes d last endA endB p ((line, q) :: passes) r

/-- What is known of a hunk before its lines are shown: the numbers of its edits, the lines where it
starts and ends, and its header. -/
structure Frame where
  first : ℕ
  last : ℕ
  startA : ℕ
  endA : ℕ
  startB : ℕ
  endB : ℕ
  header : String
  deriving DecidableEq, Repr

/-- The frame of the hunk whose first edit has the number `first`. -/
def frame (d : FileDiff) (first : ℕ) : Checked Frame := do
  let last ← d.combinedEnd first
  let firstEdit ← d.editAt first
  let lastEdit ← d.editAt last
  let startA := firstEdit.beginA - contextLines
  let startB := firstEdit.beginB - contextLines
  let endA := min (lastEdit.endA + contextLines) d.a.size
  let endB := min (lastEdit.endB + contextLines) d.b.size
  return ⟨first, last, startA, endA, startB, endB,
    ← Hunk.checkedHeader ⟨startA, endA, startB, endB, []⟩⟩

/-- A hunk that has been shown: its frame, and the passes of its inner loop. -/
structure Shown where
  frame : Frame
  passes : List (HunkLine × Point)

/-- The hunk. -/
def Shown.hunk (s : Shown) : Hunk :=
  ⟨s.frame.startA, s.frame.endA, s.frame.startB, s.frame.endB, s.passes.map Prod.fst⟩

/-- The points at which the inner loop stands, before the first pass and after each. -/
def Shown.points (s : Shown) : List Point :=
  ⟨s.frame.first, s.frame.startA, s.frame.startB⟩ :: s.passes.map Prod.snd

/-- A run of the outer loop from the edit `i` on. -/
inductive Shows (d : FileDiff) : (i : ℕ) → List Shown → Prop
  | done {i : ℕ} (h : ¬ i < d.edits.length) : Shows d i []
  | hunk {i : ℕ} {f : Frame} {passes : List (HunkLine × Point)} {stop : Point}
      {shown : List Shown} (h : i < d.edits.length) (hframe : d.frame i = .ok f)
      (hpasses : Passes d f.last f.endA f.endB ⟨i, f.startA, f.startB⟩ passes stop)
      (more : Shows d (stop.edit + 1) shown) : Shows d i (⟨f, passes⟩ :: shown)

variable {d : FileDiff} {i last endA endB : ℕ} {p r r' : Point}
  {passes passes' : List (HunkLine × Point)} {shown shown' : List Shown}

/-- The inner loop has only one run. -/
theorem Passes.unique (h : Passes d last endA endB p passes r)
    (h' : Passes d last endA endB p passes' r') : passes = passes' ∧ r = r' := by
  induction h generalizing passes' with
  | done hend =>
    cases h' with
    | done => exact ⟨rfl, rfl⟩
    | pass hlines => exact absurd hlines hend
  | pass hlines hpass more ih =>
    cases h' with
    | done hend => exact absurd hlines hend
    | pass hlines' hpass' more' =>
      obtain ⟨rfl, rfl⟩ := Prod.mk.inj (Except.ok.inj (hpass.symm.trans hpass'))
      obtain ⟨rfl, rfl⟩ := ih more'
      exact ⟨rfl, rfl⟩

/-- The outer loop has only one run. -/
theorem Shows.unique (h : Shows d i shown) (h' : Shows d i shown') : shown = shown' := by
  induction h generalizing shown' with
  | done hend =>
    cases h' with
    | done => rfl
    | hunk hlt => exact absurd hlt hend
  | hunk hlt hframe hpasses more ih =>
    cases h' with
    | done hend => exact absurd hlt hend
    | hunk hlt' hframe' hpasses' more' =>
      obtain rfl := Except.ok.inj (hframe.symm.trans hframe')
      obtain ⟨rfl, rfl⟩ := hpasses.unique hpasses'
      rw [ih more']

/-! ## The edit at hand -/

/-- The edits of a hunk from the number `i` on are `edit` and `rest`. -/
def EditsFrom (d : FileDiff) (last i : ℕ) (edit : Edit) (rest : List Edit) : Prop :=
  ∃ before later, d.edits = before ++ (edit :: rest ++ later) ∧ before.length = i ∧
    last = i + rest.length

variable {edit next : Edit} {rest later : List Edit} {lineA lineB : ℕ}

theorem editAt_eq {before : List Edit} (h : d.edits = before ++ edit :: later) :
    d.editAt before.length = .ok edit := by
  refine Checked.read_nat ?_
  rw [List.getElem?_toArray, h, List.getElem?_append_right (Nat.le_refl _), Nat.sub_self]
  rfl

theorem EditsFrom.last_eq (h : EditsFrom d last i edit rest) : last = i + rest.length := by
  obtain ⟨-, -, -, -, hlast⟩ := h
  exact hlast

theorem EditsFrom.editAt (h : EditsFrom d last i edit rest) : d.editAt i = .ok edit := by
  obtain ⟨before, later, hedits, rfl, -⟩ := h
  exact editAt_eq hedits

theorem EditsFrom.tail (h : EditsFrom d last i edit (next :: rest)) :
    EditsFrom d last (i + 1) next rest := by
  obtain ⟨before, later, hedits, rfl, rfl⟩ := h
  refine ⟨before ++ [edit], later, ?_, List.length_append, ?_⟩
  · rw [hedits, List.append_assoc]
    rfl
  · rw [List.length_cons]
    omega

/-- The inner loop goes on to the edit that it has to go on to. -/
theorem EditsFrom.moveOn (h : EditsFrom d last i edit rest) (lineA lineB : ℕ) :
    ∃ j, d.moveOn last edit ⟨i, lineA, lineB⟩ = .ok ⟨j, lineA, lineB⟩ ∧
      EditsFrom d last j (advanceEdit lineA lineB edit rest).1
        (advanceEdit lineA lineB edit rest).2 := by
  cases rest with
  | nil =>
    refine ⟨i, if_neg ?_, h⟩
    rintro ⟨-, -, hlt⟩
    exact absurd h.last_eq (Nat.ne_of_gt hlt)
  | cons next rest =>
    have hlt : i < last := by
      rw [h.last_eq, List.length_cons]
      omega
    rw [advanceEdit, FileDiff.moveOn]
    by_cases hdone : lineA = edit.endA ∧ lineB = edit.endB
    · rw [if_pos hdone, if_pos ⟨hdone.1, hdone.2, hlt⟩, h.tail.editAt]
      exact ⟨i + 1, rfl, h.tail⟩
    · rw [if_neg hdone, if_neg fun hmove => hdone ⟨hmove.1, hmove.2.1⟩]
      exact ⟨i, rfl, h⟩

theorem EditsFrom.editAt_last (h : EditsFrom d last i edit rest) :
    d.editAt last = .ok (lastOf edit rest) := by
  induction rest generalizing i edit with
  | nil =>
    rw [h.last_eq]
    exact h.editAt
  | cons next rest ih =>
    rw [lastOf_cons]
    exact ih h.tail

theorem lastOf_advanceEdit (lineA lineB : ℕ) (edit : Edit) (rest : List Edit) :
    lastOf (advanceEdit lineA lineB edit rest).1 (advanceEdit lineA lineB edit rest).2 =
      lastOf edit rest := by
  cases rest with
  | nil => rfl
  | cons next rest =>
    rw [advanceEdit]
    split
    · exact (lastOf_cons edit next rest).symm
    · rfl

/-! ## One pass -/

/-- How a pass takes the cursors on: both by a line, outside of the edit at hand, or one of them. -/
inductive Moves (edit : Edit) (lineA lineB : ℕ) : (lineA' lineB' : ℕ) → Prop
  | context (houtside : lineA < edit.beginA ∨ (edit.endA ≤ lineA ∧ edit.endB ≤ lineB)) :
    Moves edit lineA lineB (lineA + 1) (lineB + 1)
  | removed : Moves edit lineA lineB (lineA + 1) lineB
  | added : Moves edit lineA lineB lineA (lineB + 1)

theorem Moves.lt {lineA' lineB' : ℕ} (h : Moves edit lineA lineB lineA' lineB') :
    lineA ≤ lineA' ∧ lineB ≤ lineB' ∧ lineA + lineB < lineA' + lineB' := by
  cases h <;> omega

theorem read_line {xs : Array String} {x : String} (h : xs.toList[i]? = some x) :
    Checked.read xs (i : ℤ) = .ok x :=
  Checked.read_nat (by rwa [Array.getElem?_toList] at h)

/-- The line that is shown next is the first one that is still to be shown. -/
theorem nextLine_spec (h : Cursor d.a.toList d.b.toList endA endB edit rest lineA lineB)
    (hlines : lineA < endA ∨ lineB < endB) :
    ∃ line lineA' lineB', d.nextLine edit lineA lineB = .ok (line, lineA', lineB') ∧
      Moves edit lineA lineB lineA' lineB' ∧
      Cursor d.a.toList d.b.toList endA endB (advanceEdit lineA' lineB' edit rest).1
        (advanceEdit lineA' lineB' edit rest).2 lineA' lineB' ∧
      pendingLines d.a.toList d.b.toList endA lineA lineB edit rest =
        line :: pendingLines d.a.toList d.b.toList endA lineA' lineB'
          (advanceEdit lineA' lineB' edit rest).1 (advanceEdit lineA' lineB' edit rest).2 := by
  by_cases houtside : lineA < edit.beginA ∨ (edit.endA ≤ lineA ∧ edit.endB ≤ lineB)
  · obtain ⟨x, hx, hnext, hpending⟩ := h.context hlines houtside
    refine ⟨.context x, lineA + 1, lineB + 1, ?_, .context houtside, hnext, hpending⟩
    rw [nextLine]
    split
    · rw [read_line hx]
      rfl
    · rw [if_neg (by omega), if_neg (by omega), read_line hx]
      rfl
  · obtain ⟨inside, hA, hB, -⟩ := h.inside houtside
    rw [nextLine, if_neg (by omega)]
    by_cases hremoves : lineA < edit.endA
    · obtain ⟨x, hx, hnext, hpending⟩ := h.removed houtside hremoves
      refine ⟨.removed x, lineA + 1, lineB, ?_, .removed, hnext, hpending⟩
      rw [if_pos hremoves, read_line hx]
      rfl
    · obtain ⟨x, hx, hnext, hpending⟩ := h.added houtside hremoves
      refine ⟨.added x, lineA, lineB + 1, ?_, .added, hnext, hpending⟩
      rw [if_neg hremoves, if_pos (by omega), read_line hx]
      rfl

/-- The inner loop of a hunk stands at a point, with `edit` at hand and `rest` behind it. -/
structure InHunk (d : FileDiff) (last endA endB : ℕ) (edit : Edit) (rest : List Edit) (p : Point) :
    Prop where
  edits : EditsFrom d last p.edit edit rest
  cursor : Cursor d.a.toList d.b.toList endA endB edit rest p.lineA p.lineB

theorem InHunk.pass (h : InHunk d last endA endB edit rest p)
    (hlines : p.lineA < endA ∨ p.lineB < endB) :
    ∃ line q edit' rest', d.pass last p = .ok (line, q) ∧ InHunk d last endA endB edit' rest' q ∧
      lastOf edit' rest' = lastOf edit rest ∧ Moves edit p.lineA p.lineB q.lineA q.lineB ∧
      pendingLines d.a.toList d.b.toList endA p.lineA p.lineB edit rest =
        line :: pendingLines d.a.toList d.b.toList endA q.lineA q.lineB edit' rest' := by
  obtain ⟨line, lineA', lineB', hline, hmoves, hcursor, hpending⟩ := nextLine_spec h.cursor hlines
  obtain ⟨j, hmove, hedits⟩ := h.edits.moveOn lineA' lineB'
  refine ⟨line, ⟨j, lineA', lineB'⟩, _, _, ?_, ⟨hedits, hcursor⟩, lastOf_advanceEdit _ _ _ _,
    hmoves, hpending⟩
  rw [FileDiff.pass, h.edits.editAt, Checked.ok_bind, hline, Checked.ok_bind]
  simp only [hmove, Checked.ok_bind]
  rfl

/-! ## The run of the inner loop -/

theorem InHunk.edit_eq_last (h : InHunk d last endA endB edit rest ⟨i, endA, endB⟩) : i = last := by
  rw [h.edits.last_eq, h.cursor.at_end.1]
  rfl

/-- The inner loop shows all lines that are left to it, and stops at the ends of the hunk. -/
theorem InHunk.run (h : InHunk d last endA endB edit rest p) :
    ∃ passes, Passes d last endA endB p passes ⟨last, endA, endB⟩ ∧
      passes.map Prod.fst =
        pendingLines d.a.toList d.b.toList endA p.lineA p.lineB edit rest ∧
      ∀ q ∈ p :: passes.map Prod.snd, ∃ edit' rest', InHunk d last endA endB edit' rest' q ∧
        lastOf edit' rest' = lastOf edit rest := by
  -- Each pass takes a cursor on by a line, and none of them goes beyond its end.
  generalize hn : endA - p.lineA + (endB - p.lineB) = n
  induction n using Nat.strong_induction_on generalizing p edit rest with
  | _ n ih =>
    obtain ⟨hleA, hleB⟩ := h.cursor.le
    by_cases hlines : p.lineA < endA ∨ p.lineB < endB
    · obtain ⟨line, q, edit', rest', hpass, hnext, hlast, hmoves, hpending⟩ := h.pass hlines
      have hless : endA - q.lineA + (endB - q.lineB) < n := by
        have hle := hnext.cursor.le
        have hlt := hmoves.lt
        omega
      obtain ⟨passes, hpasses, hshown, hpoints⟩ := ih _ hless hnext rfl
      refine ⟨(line, q) :: passes, .pass hlines hpass hpasses, ?_, ?_⟩
      · rw [List.map_cons, hshown, hpending]
      · rw [List.map_cons]
        refine List.forall_mem_cons.2 ⟨⟨edit, rest, h, rfl⟩, fun r hr => ?_⟩
        rw [← hlast]
        exact hpoints r hr
    · obtain ⟨i, lineA, lineB⟩ := p
      obtain ⟨rfl, rfl⟩ : lineA = endA ∧ lineB = endB := by
        simp only at hlines hleA hleB
        omega
      obtain rfl := h.edit_eq_last
      refine ⟨[], .done hlines, h.cursor.pending_end.symm, ?_⟩
      exact List.forall_mem_cons.2 ⟨⟨edit, rest, h, rfl⟩, fun r hr => nomatch hr⟩

/-! ## Coming to the ends -/

/-- If lines follow behind the last edit, both cursors come to the end of the hunk at once. -/
theorem InHunk.together (h : InHunk d last endA endB edit rest p)
    (hlast : (lastOf edit rest).endA < endA) : p.lineA = endA ↔ p.lineB = endB := by
  cases h.cursor with
  | ahead hA h =>
    cases h with
    | edit same inside apart hrest =>
      have hsame := same.bounds
      have hleA := inside.leA
      have hleB := inside.leB
      obtain ⟨hbeforeA, hbeforeB, hafter⟩ := hrest.after_last
      have hbounds := hafter.bounds
      omega
  | within inside hA hB unfinished h =>
    obtain ⟨hbeforeA, hbeforeB, hafter⟩ := h.after_last
    have hbounds := hafter.bounds
    omega
  | behind hrest hbegin hA hB same =>
    have hbounds := same.bounds
    omega

/-- If no line follows behind the last edit, the last pass takes on one cursor only. -/
theorem InHunk.apart_before_end {lineA' lineB' : ℕ} (h : InHunk d last endA endB edit rest p)
    (hlast : (lastOf edit rest).endA = endA) (hmoves : Moves edit p.lineA p.lineB lineA' lineB')
    (hA' : lineA' = endA) (hB' : lineB' = endB) : ¬ (p.lineA = endA ↔ p.lineB = endB) := by
  cases hmoves with
  | removed => omega
  | added => omega
  | context houtside =>
    -- Context in front of an edit is not the last line, and there is none behind the last edit.
    cases h.cursor with
    | ahead hA h =>
      cases h with
      | edit same inside apart hrest =>
        have hsame := same.bounds
        have hchanges := inside.changes
        have hleA := inside.leA
        have hleB := inside.leB
        have hrest := hrest.le
        omega
    | within inside hA hB unfinished h => omega
    | behind hrest hbegin hA hB same =>
      rw [hrest, lastOf, List.getLast?_nil, Option.getD_none] at hlast
      omega

theorem Passes.exists_apart (hpasses : Passes d last endA endB p passes r)
    (h : InHunk d last endA endB edit rest p) (hlines : p.lineA < endA ∨ p.lineB < endB)
    (hlast : (lastOf edit rest).endA = endA) :
    ∃ q ∈ p :: passes.map Prod.snd, ¬ (q.lineA = endA ↔ q.lineB = endB) := by
  induction hpasses generalizing edit rest with
  | done hend => exact absurd hlines hend
  | @pass p q r line passes hlines hpass more ih =>
    obtain ⟨line', q', edit', rest', hpass', hnext, hlast', hmoves, -⟩ := h.pass hlines
    obtain ⟨rfl, rfl⟩ := Prod.mk.inj (Except.ok.inj (hpass.symm.trans hpass'))
    by_cases hmore : q.lineA < endA ∨ q.lineB < endB
    · obtain ⟨s, hs, hapart⟩ := ih hnext hmore (by rw [hlast', hlast])
      exact ⟨s, List.mem_cons_of_mem _ hs, hapart⟩
    · have hle := hnext.cursor.le
      refine ⟨p, List.mem_cons_self, ?_⟩
      exact h.apart_before_end hlast hmoves (by omega) (by omega)

/-! ## The outer loop -/

theorem combinedEnd_last {before : List Edit} (hedits : d.edits = before ++ [edit]) :
    d.combinedEnd before.length = .ok before.length := by
  rw [combinedEnd, dif_neg]
  · rfl
  · rw [hedits, List.length_append, List.length_singleton]
    exact Nat.lt_irrefl _

/-- Looking ahead at the next edit. -/
theorem combinedEnd_look {before : List Edit} (hedits : d.edits = before ++ edit :: next :: later)
    (hsame : InStep d.a.toList d.b.toList edit.endA edit.endB next.beginA next.beginB) :
    d.combinedEnd before.length =
      if edit.endA + (2 * contextLines + 1) < next.beginA then .ok before.length
      else d.combinedEnd (before.length + 1) := by
  have hlt : before.length + 1 < d.edits.length := by
    rw [hedits, List.length_append, List.length_cons, List.length_cons]
    omega
  have hread : d.editAt (before.length + 1) = .ok next := by
    rw [List.append_cons] at hedits
    have hread := editAt_eq hedits
    rwa [List.length_append] at hread
  rw [combinedEnd, dif_pos hlt, editAt_eq hedits, Checked.ok_bind, hread, Checked.ok_bind,
    farApart_spec hsame, Checked.ok_bind]
  simp only [decide_eq_true_eq]
  rfl

/-- Edits that are near each other share a hunk, and the next one is too far away. -/
theorem combinedEnd_eq {before : List Edit} {i j m n : ℕ}
    (hedits : d.edits = before ++ (edit :: rest ++ later))
    (haligned : Aligned d.a.toList d.b.toList (edit :: rest) i j m n)
    (near : (edit :: rest).IsChain fun e next =>
      next.beginA ≤ e.endA + (2 * contextLines + 1) ∧
        next.beginB ≤ e.endB + (2 * contextLines + 1))
    (apart : ∀ next ∈ later.head?,
      InStep d.a.toList d.b.toList (lastOf edit rest).endA (lastOf edit rest).endB next.beginA
        next.beginB ∧
      (lastOf edit rest).endA + (2 * contextLines + 1) < next.beginA) :
    d.combinedEnd before.length = .ok (before.length + rest.length) := by
  induction rest generalizing before edit i j with
  | nil =>
    cases later with
    | nil => exact combinedEnd_last hedits
    | cons next later =>
      obtain ⟨hsame, hfar⟩ := apart next rfl
      rw [combinedEnd_look hedits hsame]
      exact if_pos hfar
  | cons next rest ih =>
    cases haligned with
    | edit same inside apart' hrest =>
      have hsame : InStep d.a.toList d.b.toList edit.endA edit.endB next.beginA next.beginB := by
        cases hrest with
        | edit same inside apart hrest => exact same
      obtain ⟨hnear, hchain⟩ := List.isChain_cons_cons.1 near
      rw [combinedEnd_look hedits hsame, if_neg (by omega), List.length_cons]
      rw [List.cons_append, List.cons_append, List.append_cons] at hedits
      rw [lastOf_cons] at apart
      have hmore := ih hedits hrest hchain apart
      rw [List.length_append, Nat.add_assoc, Nat.add_comm [edit].length] at hmore
      exact hmore

/-- The frame of the hunk around a group of edits. -/
def frameAround (d : FileDiff) (i last : ℕ) (first : Edit) (rest : List Edit) : Frame :=
  let h := hunkAround d first rest
  ⟨i, last, h.startA, h.endA, h.startB, h.endB, h.header⟩

theorem frame_eq (h : EditsFrom d last i edit rest) (hcombined : d.combinedEnd i = .ok last)
    (haround : AlignedAround d edit rest) : d.frame i = .ok (frameAround d i last edit rest) := by
  obtain ⟨hA, hB⟩ := haround.le
  have hheader : Hunk.checkedHeader ⟨(hunkAround d edit rest).startA, (hunkAround d edit rest).endA,
      (hunkAround d edit rest).startB, (hunkAround d edit rest).endB, []⟩ =
        .ok (hunkAround d edit rest).header := Hunk.checkedHeader_eq hA hB
  simp only [frame, hcombined, h.editAt, h.editAt_last, Checked.ok_bind]
  simp only [hunkAround] at hheader
  rw [hheader]
  rfl

/-- What holds of the inner loop of a hunk. -/
structure Shown.Complete (d : FileDiff) (s : Shown) : Prop where
  header : s.frame.header = s.hunk.header
  /-- No cursor goes beyond the end of the hunk. -/
  inside : ∀ p ∈ s.points, p.lineA ≤ s.frame.endA ∧ p.lineB ≤ s.frame.endB
  /-- Both cursors come there, with the last edit at hand. -/
  stop : s.points.getLast? = some ⟨s.frame.last, s.frame.endA, s.frame.endB⟩
  /-- They come there in the same pass if an unchanged line follows behind the last edit, and only
  then. -/
  together : ∃ e, d.editAt s.frame.last = .ok e ∧
    ((∀ p ∈ s.points, p.lineA = s.frame.endA ↔ p.lineB = s.frame.endB) ↔ e.endA < s.frame.endA)

theorem Passes.getLast?_points {p r : Point} (h : Passes d last endA endB p passes r) :
    (p :: passes.map Prod.snd).getLast? = some r := by
  induction h with
  | done hend => rfl
  | pass hlines hpass more ih =>
    rw [List.map_cons, List.getLast?_cons_cons]
    exact ih

/-- The inner loop shows the hunk around a group of edits. -/
theorem shown_of_group (h : EditsFrom d last i edit rest) (haround : AlignedAround d edit rest) :
    ∃ passes, Passes d last (hunkAround d edit rest).endA (hunkAround d edit rest).endB
        ⟨i, (hunkAround d edit rest).startA, (hunkAround d edit rest).startB⟩ passes
        ⟨last, (hunkAround d edit rest).endA, (hunkAround d edit rest).endB⟩ ∧
      Shown.hunk ⟨frameAround d i last edit rest, passes⟩ = hunkAround d edit rest ∧
      Shown.Complete d ⟨frameAround d i last edit rest, passes⟩ := by
  have hstart : InHunk d last (hunkAround d edit rest).endA (hunkAround d edit rest).endB edit rest
      ⟨i, (hunkAround d edit rest).startA, (hunkAround d edit rest).startB⟩ :=
    ⟨h, .of_aligned haround⟩
  obtain ⟨passes, hpasses, hlines, hpoints⟩ := hstart.run
  rw [pendingLines_of_aligned haround] at hlines
  have hhunk : Shown.hunk ⟨frameAround d i last edit rest, passes⟩ = hunkAround d edit rest := by
    rw [Shown.hunk, hlines]
    rfl
  refine ⟨passes, hpasses, hhunk, ?_⟩
  exact
    { header := congrArg Hunk.header hhunk.symm
      inside := fun p hp => by
        obtain ⟨edit', rest', hin, -⟩ := hpoints p hp
        exact hin.cursor.le
      stop := hpasses.getLast?_points
      together := by
        refine ⟨lastOf edit rest, h.editAt_last, fun htogether => ?_, fun hafter p hp => ?_⟩
        · obtain ⟨hle, hne⟩ := haround.cons_bounds
          refine Nat.lt_of_le_of_ne hle fun heq => ?_
          obtain ⟨p, hp, hapart⟩ := hpasses.exists_apart hstart hne heq
          exact hapart (htogether p hp)
        · obtain ⟨edit', rest', hin, hsame⟩ := hpoints p hp
          exact hin.together (hsame ▸ hafter) }

theorem next_gap {a b : List String} {groups : List (Edit × List Edit)} {i j : ℕ}
    (h : Grouped a b groups i j)
    (hapart : ∀ next ∈ groups.head?, i + (2 * contextLines + 1) < next.1.beginA) :
    ∀ next ∈ (groups.flatMap fun group => group.1 :: group.2).head?,
      InStep a b i j next.beginA next.beginB ∧ i + (2 * contextLines + 1) < next.beginA := by
  cases h with
  | done same => simp
  | group edits near apart more =>
    rintro next ⟨⟩
    cases edits with
    | edit same inside apart hrest => exact ⟨same, hapart _ rfl⟩

/-- The outer loop shows the hunks around all groups of edits. -/
theorem shows_of_groups {groups : List (Edit × List Edit)} {before : List Edit} {i j : ℕ}
    (h : Grouped d.a.toList d.b.toList groups i j)
    (hedits : d.edits = before ++ groups.flatMap fun group => group.1 :: group.2)
    (haround : ∀ group ∈ groups, AlignedAround d group.1 group.2) :
    ∃ shown, Shows d before.length shown ∧
      shown.map Shown.hunk = groups.map (fun group => hunkAround d group.1 group.2) ∧
      (shown.flatMap fun s => List.range' s.frame.first (s.frame.last + 1 - s.frame.first)) =
        List.range' before.length (d.edits.length - before.length) ∧
      ∀ s ∈ shown, s.Complete d := by
  induction h generalizing before with
  | done same =>
    rw [List.flatMap_nil, List.append_nil] at hedits
    refine ⟨[], .done ?_, rfl, ?_, by simp⟩
    · rw [hedits]
      exact Nat.lt_irrefl _
    · rw [hedits, Nat.sub_self]
      rfl
  | @group first rest groups i j edits near apart more ih =>
    obtain ⟨hfirst, haround⟩ := List.forall_mem_cons.1 haround
    rw [List.flatMap_cons] at hedits
    have hfrom : EditsFrom d (before.length + rest.length) before.length first rest :=
      ⟨before, _, hedits, rfl, rfl⟩
    have hframe := frame_eq hfrom (combinedEnd_eq hedits edits near (next_gap more apart)) hfirst
    obtain ⟨passes, hpasses, hhunk, hcomplete⟩ := shown_of_group hfrom hfirst
    have hlength : (before ++ first :: rest).length = before.length + rest.length + 1 :=
      List.length_append
    rw [← List.append_assoc] at hedits
    obtain ⟨shown, hshows, hhunks, hnumbers, hall⟩ := ih hedits haround
    rw [hlength] at hshows hnumbers
    have hle : before.length + rest.length + 1 ≤ d.edits.length := by
      rw [hedits, List.length_append, hlength]
      exact Nat.le_add_right _ _
    refine ⟨_ :: shown, .hunk (by omega) hframe hpasses hshows, ?_, ?_,
      List.forall_mem_cons.2 ⟨hcomplete, hall⟩⟩
    · rw [List.map_cons, List.map_cons, hhunk, hhunks]
    · have hrest : d.edits.length - before.length =
          before.length + rest.length + 1 - before.length +
            (d.edits.length - (before.length + rest.length + 1)) := by omega
      have hstart : before.length + rest.length + 1 =
          before.length + (before.length + rest.length + 1 - before.length) := by omega
      rw [List.flatMap_cons, hnumbers, hrest, ← List.range'_append_1, ← hstart]
      rfl

/-- The hunks of a difference are shown without an access out of range or a difference below zero.
There is one run, which comes to an end and takes each edit once. -/
theorem hunks_shown (original expected : String) :
    ∃ shown, (∀ shown', (compute original expected).Shows 0 shown' ↔ shown' = shown) ∧
      (compute original expected).hunks = .ok (shown.map Shown.hunk) ∧
      (shown.flatMap fun s => List.range' s.frame.first (s.frame.last + 1 - s.frame.first)) =
        List.range (compute original expected).edits.length ∧
      ((shown.map Shown.hunk).flatMap fun h => h.lines.filter (!·.isContext)) =
        (compute original expected).edits.flatMap
          (changedLines (Text.linesOf original) (Text.linesOf expected)) ∧
      ∀ s ∈ shown, s.Complete (compute original expected) := by
  obtain ⟨groups, hgrouped, hedits, hhunks, -, haround⟩ :=
    hunks_eq (d := compute original expected) (aligned_compute original expected)
  have hsplit : (compute original expected).edits =
      [] ++ groups.flatMap fun group => group.1 :: group.2 := hedits.symm
  obtain ⟨shown, hshows, hshown, hnumbers, hall⟩ := shows_of_groups hgrouped hsplit haround
  refine ⟨shown, fun shown' => ⟨fun h => h.unique hshows, fun h => h ▸ hshows⟩, ?_, ?_, ?_, hall⟩
  · rw [hhunks, hshown]
  · rw [hnumbers, List.length_nil, Nat.sub_zero, List.range_eq_range']
  · rw [hshown, List.flatMap_map, ← hedits, List.flatMap_assoc]
    exact List.flatMap_congr fun group _ => filter_hunkBody _ _

/-- A line is put in behind the only one: the cursor of the first text is at its end already, and
waits for the other one. -/
theorem cursors_arrive_apart :
    ¬ ∀ shown, (compute "x\n" "x\nx\n").Shows 0 shown → ∀ s ∈ shown, ∀ p ∈ s.points,
      p.lineA = s.frame.endA ↔ p.lineB = s.frame.endB := by
  intro hall
  generalize hd : compute "x\n" "x\nx\n" = d at hall
  have hframe : d.frame 0 = .ok ⟨0, 0, 0, 1, 0, 2, "@@ -1 +1,2 @@"⟩ := by
    rw [← hd]
    decide +kernel
  have hfirst : d.pass 0 ⟨0, 0, 0⟩ = .ok (.context "x\n", ⟨0, 1, 1⟩) := by
    rw [← hd]
    decide +kernel
  have hsecond : d.pass 0 ⟨0, 1, 1⟩ = .ok (.added "x\n", ⟨0, 1, 2⟩) := by
    rw [← hd]
    decide +kernel
  have hedits : d.edits.length = 1 := by
    rw [← hd]
    decide +kernel
  have hpasses : Passes d 0 1 2 ⟨0, 0, 0⟩ _ _ :=
    .pass (Or.inl Nat.one_pos) hfirst (.pass (Or.inr (Nat.lt_succ_self 1)) hsecond
      (.done (by decide)))
  have hshows : d.Shows 0 _ :=
    .hunk (by rw [hedits]; decide) hframe hpasses (.done (by rw [hedits]; decide))
  have hpoint := hall _ hshows _ List.mem_cons_self ⟨0, 1, 1⟩ (by simp [Shown.points])
  exact absurd (hpoint.1 rfl) (by decide)

end FileDiff

end StableFormat
