import StableFormat.Proofs.Diff.Hunks
import StableFormat.Proofs.Diff.NormalForm

/-!
# Proofs: the shape of hunks

A hunk shows the lines that its edits change, with up to three unchanged lines around them. Its
ranges are as long as its lines say, neighbouring edits share a hunk exactly if at most seven lines
lie between them, and what is left out between two hunks is at least two lines.
-/

namespace StableFormat

namespace HunkLine

/-- The line is one that both texts have. -/
def isContext : HunkLine → Bool
  | context _ => true
  | _ => false

/-- The line stands in the first text. -/
def inFirst : HunkLine → Bool
  | added _ => false
  | _ => true

/-- The line stands in the second text. -/
def inSecond : HunkLine → Bool
  | removed _ => false
  | _ => true

end HunkLine

/-- The hunk of the edits `first :: rest`. In the first text, what is unchanged in front of them
begins at `i`, and what is unchanged behind them ends at `m`. -/
structure HunkOf (a b : List String) (i m : ℕ) (first : Edit) (rest : List Edit) (h : Hunk) :
    Prop where
  /-- Up to three unchanged lines stand in front of the first edit. -/
  leading : (h.lines.takeWhile (·.isContext)).length = min 3 (first.beginA - i)
  startA : h.startA + min 3 (first.beginA - i) = first.beginA
  startB : h.startB + min 3 (first.beginA - i) = first.beginB
  /-- Up to three unchanged lines stand behind the last edit. -/
  trailing : (h.lines.reverse.takeWhile (·.isContext)).length =
    min 3 (m - (lastOf first rest).endA)
  endA : h.endA = (lastOf first rest).endA + min 3 (m - (lastOf first rest).endA)
  endB : h.endB = (lastOf first rest).endB + min 3 (m - (lastOf first rest).endA)
  /-- The lines that only one text has are those that the edits change, in their order. -/
  changes : h.lines.filter (!·.isContext) = (first :: rest).flatMap (changedLines a b)
  /-- The changed lines stand among the unchanged ones at their places. -/
  lines : h.lines = hunkBody a b h.endA h.startA (first :: rest)
  /-- Each line stands in the texts where the start of the hunk and the lines before it say; a line
  of context stands in both. -/
  reads : Reads a b h.lines h.startA h.startB h.endA h.endB
  lengthA : h.endA - h.startA = h.lines.countP (·.inFirst)
  lengthB : h.endB - h.startB = h.lines.countP (·.inSecond)

/-- The hunks of edits, in order. In the first text, what is unchanged in front of the first edit
begins at `i`. -/
inductive HunksOf (a b : List String) : (i : ℕ) → List Edit → List Hunk → Prop
  | done (i : ℕ) : HunksOf a b i [] []
  | hunk {i : ℕ} {first : Edit} {rest later : List Edit} {h : Hunk} {hs : List Hunk}
      (shows : HunkOf a b i ((later.head?.map Edit.beginA).getD a.length) first rest h)
      -- Neighbouring edits share a hunk if at most seven lines lie between them, and only then.
      (near : (first :: rest).IsChain fun e next =>
        next.beginA ≤ e.endA + 7 ∧ next.beginB ≤ e.endB + 7)
      (far : ∀ next ∈ later.head?, (lastOf first rest).endA + 7 < next.beginA ∧
        (lastOf first rest).endB + 7 < next.beginB)
      -- The lines that are left out in front of the next hunk are unchanged.
      (apart : ∀ next ∈ hs.head?, h.endA + 2 ≤ next.startA ∧ h.endB + 2 ≤ next.startB ∧
        InStep a b h.endA h.endB next.startA next.startB)
      (more : HunksOf a b (lastOf first rest).endA later hs) :
      HunksOf a b i (first :: rest ++ later) (h :: hs)

variable {a b : List String} {d : FileDiff} {e first : Edit} {es rest : List Edit}
  {lines : List HunkLine} {i j i' j' m n stop : ℕ}

/-! ## Lines of a hunk -/

/-- Each line takes a reader on by one in the texts that it stands in. -/
theorem Reads.count (h : Reads a b lines i j i' j') :
    i + lines.countP (·.inFirst) = i' ∧ j + lines.countP (·.inSecond) = j' := by
  induction h with
  | done i j => exact ⟨rfl, rfl⟩
  | context ha hb rest ih =>
    rw [List.countP_cons_of_pos rfl, List.countP_cons_of_pos rfl]
    omega
  | removed ha rest ih =>
    rw [List.countP_cons_of_pos rfl, List.countP_cons_of_neg (by simp [HunkLine.inSecond])]
    omega
  | added hb rest ih =>
    rw [List.countP_cons_of_neg (by simp [HunkLine.inFirst]), List.countP_cons_of_pos rfl]
    omega

theorem length_slice (h : m ≤ a.length) : (slice a i m).length = m - i := by
  rw [slice, List.length_drop, List.length_take, Nat.min_eq_left h]

theorem isContext_of_mem_context {line : HunkLine} {xs : List String}
    (h : line ∈ xs.map HunkLine.context) : line.isContext = true := by
  obtain ⟨x, -, rfl⟩ := List.mem_map.1 h
  rfl

theorem isContext_of_mem_changedLines {line : HunkLine} (h : line ∈ changedLines a b e) :
    line.isContext = false := by
  rcases List.mem_append.1 h with h | h
  · obtain ⟨x, -, rfl⟩ := List.mem_map.1 h
    rfl
  · obtain ⟨x, -, rfl⟩ := List.mem_map.1 h
    rfl

/-- An edit changes some line. -/
theorem changedLines_ne_nil (h : e.Inside a b) : changedLines a b e ≠ [] := by
  have hchanges := h.changes
  have hA := length_slice (i := e.beginA) h.lengthA
  have hB := length_slice (i := e.beginB) h.lengthB
  intro hnil
  have hlength := congrArg List.length hnil
  rw [changedLines, List.length_append, List.length_map, List.length_map, hA, hB,
    List.length_nil] at hlength
  omega

/-- A line that is not context ends the context in front of it. -/
theorem takeWhile_context {front back : List HunkLine} (hfront : ∀ line ∈ front, line.isContext)
    (hback : ∀ line ∈ back.head?, line.isContext = false) :
    (front ++ back).takeWhile (·.isContext) = front := by
  rw [List.takeWhile_append_of_pos hfront]
  cases back with
  | nil => exact List.append_nil front
  | cons line back =>
    have hline : ¬ line.isContext = true := by simp [hback line rfl]
    rw [List.takeWhile_cons_of_neg hline, List.append_nil]

/-- The context in front of the first edit. -/
theorem length_leading (h : first.Inside a b) (stop i : ℕ) (rest : List Edit) :
    ((hunkBody a b stop i (first :: rest)).takeWhile (·.isContext)).length = first.beginA - i := by
  obtain ⟨line, lines, hlines⟩ := List.exists_cons_of_ne_nil (changedLines_ne_nil h)
  have hstop : ∀ l ∈ (changedLines a b first ++ hunkBody a b stop first.endA rest).head?,
      l.isContext = false := by
    rw [hlines]
    rintro _ ⟨⟩
    exact isContext_of_mem_changedLines (hlines ▸ List.mem_cons_self)
  rw [hunkBody, takeWhile_context (fun _ => isContext_of_mem_context) hstop, List.length_map,
    length_slice (h.leA.trans h.lengthA)]

/-- Behind the last edit, a hunk has context only, and in front of that a changed line. -/
theorem hunkBody_eq_append (h : ∀ e ∈ first :: rest, e.Inside a b) (stop i : ℕ) :
    ∃ front line, hunkBody a b stop i (first :: rest) =
        front ++ line :: (slice a (lastOf first rest).endA stop).map .context ∧
      line.isContext = false := by
  induction rest generalizing first i with
  | nil =>
    have hne := changedLines_ne_nil (h first (List.mem_singleton_self _))
    refine ⟨(slice a i first.beginA).map .context ++ (changedLines a b first).dropLast,
      (changedLines a b first).getLast hne, ?_,
      isContext_of_mem_changedLines (List.getLast_mem hne)⟩
    rw [hunkBody, hunkBody, List.append_assoc, List.append_cons, List.dropLast_append_getLast,
      lastOf]
    rfl
  | cons next more ih =>
    obtain ⟨front, line, hbody, hline⟩ := ih (fun e he => h e (List.mem_cons_of_mem _ he)) first.endA
    refine ⟨(slice a i first.beginA).map .context ++ (changedLines a b first ++ front), line, ?_,
      hline⟩
    rw [hunkBody, hbody, lastOf_cons, List.append_assoc, List.append_assoc]

/-- The context behind the last edit. -/
theorem length_trailing (h : ∀ e ∈ first :: rest, e.Inside a b) (hstop : stop ≤ a.length) (i : ℕ) :
    ((hunkBody a b stop i (first :: rest)).reverse.takeWhile (·.isContext)).length =
      stop - (lastOf first rest).endA := by
  obtain ⟨front, line, hbody, hline⟩ := hunkBody_eq_append h stop i
  have hcontext : ∀ l ∈ ((slice a (lastOf first rest).endA stop).map HunkLine.context).reverse,
      l.isContext := fun l hl => isContext_of_mem_context (List.mem_reverse.1 hl)
  rw [hbody, List.reverse_append, List.reverse_cons, List.append_assoc,
    takeWhile_context hcontext (by simpa using hline), List.length_reverse, List.length_map,
    length_slice hstop]

/-- Besides context, a hunk has what its edits change. -/
theorem filter_hunkBody (i : ℕ) (es : List Edit) :
    (hunkBody a b stop i es).filter (!·.isContext) = es.flatMap (changedLines a b) := by
  have hcontext : ∀ xs : List String, (xs.map HunkLine.context).filter (!·.isContext) = [] := by
    intro xs
    rw [List.filter_eq_nil_iff]
    intro line hline
    simp [isContext_of_mem_context hline]
  induction es generalizing i with
  | nil => exact hcontext _
  | cons e es ih =>
    have hchanged : (changedLines a b e).filter (!·.isContext) = changedLines a b e := by
      rw [List.filter_eq_self]
      intro line hline
      simp [isContext_of_mem_changedLines hline]
    rw [hunkBody, List.filter_append, List.filter_append, hcontext, hchanged, ih, List.nil_append,
      List.flatMap_cons]

/-! ## The hunks of a difference -/

theorem lastOf_mem (first : Edit) (rest : List Edit) : lastOf first rest ∈ first :: rest := by
  rw [lastOf]
  cases hlast : rest.getLast? with
  | none => exact List.mem_cons_self
  | some last => exact List.mem_cons_of_mem _ (List.mem_of_getLast? hlast)

/-- A group that is far behind in the first text is so in the second one. -/
theorem Grouped.next_far {groups : List (Edit × List Edit)} (h : Grouped a b groups i j)
    (hapart : ∀ next ∈ groups.head?, i + (2 * contextLines + 1) < next.1.beginA) :
    ∀ next ∈ groups.head?, i + 7 < next.1.beginA ∧ j + 7 < next.1.beginB ∧
      next.1.Inside a b := by
  have hthree : contextLines = 3 := rfl
  intro next hnext
  cases h with
  | done same => cases hnext
  | @group first rest groups i j edits near hapart' more =>
    cases hnext
    have hfar : i + (2 * contextLines + 1) < first.beginA := hapart _ rfl
    cases edits with
    | edit same inside apart hrest =>
      have hbounds := same.bounds
      show i + 7 < first.beginA ∧ j + 7 < first.beginB ∧ first.Inside a b
      exact ⟨by omega, by omega, inside⟩

/-- The context behind a group is cut off by the end of the texts, and never by the next group. -/
theorem Grouped.context_length {groups : List (Edit × List Edit)} (h : Grouped a b groups i j)
    (hi : i ≤ a.length)
    (hapart : ∀ next ∈ groups.head?, i + (2 * contextLines + 1) < next.1.beginA) :
    let m := ((groups.flatMap fun group => group.1 :: group.2).head?.map Edit.beginA).getD a.length
    min (i + contextLines) a.length = i + min 3 (m - i) ∧
      min (j + contextLines) b.length = j + min 3 (m - i) := by
  have hthree : contextLines = 3 := rfl
  have hfar := h.next_far hapart
  cases h with
  | done same =>
    have hbounds := same.bounds
    show min (i + contextLines) a.length = i + min 3 (a.length - i) ∧
      min (j + contextLines) b.length = j + min 3 (a.length - i)
    omega
  | @group first rest groups i j edits near hapart' more =>
    obtain ⟨hfarA, hfarB, inside⟩ :
      i + 7 < first.beginA ∧ j + 7 < first.beginB ∧ first.Inside a b := hfar _ rfl
    have hleA := inside.leA
    have hleB := inside.leB
    have hlenA := inside.lengthA
    have hlenB := inside.lengthB
    show min (i + contextLines) a.length = i + min 3 (first.beginA - i) ∧
      min (j + contextLines) b.length = j + min 3 (first.beginA - i)
    omega

theorem hunkOf_hunkAround
    (edits : Aligned d.a.toList d.b.toList (first :: rest) i j (lastOf first rest).endA
      (lastOf first rest).endB)
    (hroom : i + contextLines ≤ first.beginA ∨ (i = 0 ∧ j = 0))
    (hendA : (hunkAround d first rest).endA =
      (lastOf first rest).endA + min 3 (m - (lastOf first rest).endA))
    (hendB : (hunkAround d first rest).endB =
      (lastOf first rest).endB + min 3 (m - (lastOf first rest).endA))
    (reads : Reads d.a.toList d.b.toList (hunkAround d first rest).lines
      (hunkAround d first rest).startA (hunkAround d first rest).startB
      (hunkAround d first rest).endA (hunkAround d first rest).endB) :
    HunkOf d.a.toList d.b.toList i m first rest (hunkAround d first rest) := by
  have hthree : contextLines = 3 := rfl
  have hinside := edits.inside
  have hfirst := hinside first List.mem_cons_self
  have hlengthA : (hunkAround d first rest).endA ≤ d.a.toList.length := by
    rw [Array.length_toList]
    exact Nat.min_le_right _ _
  have hstartA : (hunkAround d first rest).startA + min 3 (first.beginA - i) = first.beginA := by
    show first.beginA - contextLines + min 3 (first.beginA - i) = first.beginA
    omega
  have hstartB : (hunkAround d first rest).startB + min 3 (first.beginA - i) = first.beginB := by
    cases edits with
    | edit same inside apart hrest =>
      have hbounds := same.bounds
      show first.beginB - contextLines + min 3 (first.beginA - i) = first.beginB
      omega
  have hcount := reads.count
  exact
    { leading := (length_leading hfirst _ _ rest).trans (by omega)
      startA := hstartA
      startB := hstartB
      trailing := (length_trailing hinside hlengthA _).trans (by omega)
      endA := hendA
      endB := hendB
      changes := filter_hunkBody _ _
      lines := rfl
      reads := reads
      lengthA := by omega
      lengthB := by omega }

/-- The hunks around groups of edits are those of all their edits. -/
theorem hunksOf_of_groups {groups : List (Edit × List Edit)} {p q : ℕ}
    (h : Grouped d.a.toList d.b.toList groups i j)
    (hunked : Hunked d.a.toList d.b.toList (groups.map fun group => hunkAround d group.1 group.2)
      p q)
    (hroom : ∀ next ∈ groups.head?, i + contextLines ≤ next.1.beginA ∨ (i = 0 ∧ j = 0)) :
    HunksOf d.a.toList d.b.toList i (groups.flatMap fun group => group.1 :: group.2)
      (groups.map fun group => hunkAround d group.1 group.2) := by
  have hthree : contextLines = 3 := rfl
  induction h generalizing p q with
  | done same => exact .done _
  | @group first rest groups i j edits near apart more ih =>
    cases hunked with
    | hunk same reads hmore =>
      have hlast := edits.inside _ (lastOf_mem first rest)
      have hfar := more.next_far apart
      obtain ⟨hendA, hendB⟩ := more.context_length hlast.lengthA apart
      rw [Array.length_toList] at hendA hendB
      have hshows := hunkOf_hunkAround edits (hroom _ rfl) hendA hendB reads
      rw [List.flatMap_cons, List.map_cons]
      refine .hunk hshows near ?far ?apart (ih hmore fun next hnext => ?room)
      case room =>
        have hapart := apart next hnext
        omega
      case far =>
        cases groups with
        | nil => simp
        | cons group groups =>
          rintro next ⟨⟩
          obtain ⟨hfarA, hfarB, -⟩ := hfar _ rfl
          exact ⟨hfarA, hfarB⟩
      case apart =>
        cases groups with
        | nil => simp
        | cons group groups =>
          rintro next ⟨⟩
          obtain ⟨hfarA, hfarB, -⟩ := hfar _ rfl
          have hleA : (hunkAround d first rest).endA ≤ (lastOf first rest).endA + contextLines :=
            Nat.min_le_left _ _
          have hleB : (hunkAround d first rest).endB ≤ (lastOf first rest).endB + contextLines :=
            Nat.min_le_left _ _
          cases hmore with
          | hunk same reads more =>
            refine ⟨?_, ?_, same⟩
            · show (hunkAround d first rest).endA + 2 ≤ group.1.beginA - contextLines
              omega
            · show (hunkAround d first rest).endB + 2 ≤ group.1.beginB - contextLines
              omega

/-- The hunks of a difference show its edits. -/
theorem hunks_hunksOf (h : Aligned d.a.toList d.b.toList d.edits 0 0 d.a.size d.b.size) :
    ∃ hs, d.hunks = .ok hs ∧ Hunked d.a.toList d.b.toList hs 0 0 ∧
      HunksOf d.a.toList d.b.toList 0 d.edits hs := by
  obtain ⟨groups, hgrouped, hedits, hhunks, hhunked, -⟩ := hunks_eq h
  refine ⟨_, hhunks, hhunked, ?_⟩
  have hshape := hunksOf_of_groups hgrouped hhunked fun _ _ => Or.inr ⟨rfl, rfl⟩
  rwa [hedits] at hshape

end StableFormat
