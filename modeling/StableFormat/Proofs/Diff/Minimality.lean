import StableFormat.Proofs.Diff.CommonSubsequence

/-!
# Proofs: the edits between two sequences are shortest

Joining a script to edits does not change what it deletes and inserts, so edits that are read off a
shortest script change as little as possible. A search that is given up leaves one edit, for all
that lies between the common start and the common end.
-/

namespace StableFormat

variable {α : Type} {a b : List α} {e : Edit} {es : List Edit} {ops : List EditOp}
  {current : Option Edit} {i j limit : ℕ}

/-- The number of elements that edits remove and put in. -/
def changeCount (es : List Edit) : ℕ :=
  (es.map fun e => e.lenA + e.lenB).sum

@[simp]
theorem changeCount_nil : changeCount [] = 0 := rfl

@[simp]
theorem changeCount_cons (e : Edit) (es : List Edit) :
    changeCount (e :: es) = e.lenA + e.lenB + changeCount es := by
  simp [changeCount]

theorem changeCount_append (es es' : List Edit) :
    changeCount (es ++ es') = changeCount es + changeCount es' := by
  simp [changeCount]

/-! ## Joining a script -/

/-- The edit in progress, if there is one, has come to `(i, j)`. -/
def ComeTo (current : Option Edit) (i j : ℕ) : Prop :=
  ∀ e ∈ current, e.beginA ≤ i ∧ e.endA = i ∧ e.beginB ≤ j ∧ e.endB = j

theorem changeCount_extendDelete (h : ComeTo current i j) :
    ComeTo (some (EditOp.extendDelete current i j)) (i + 1) j ∧
      changeCount [EditOp.extendDelete current i j] = changeCount current.toList + 1 := by
  cases current with
  | none =>
    refine ⟨?_, by simp [EditOp.extendDelete, Edit.lenA, Edit.lenB]⟩
    rintro _ ⟨⟩
    exact ⟨Nat.le_succ i, rfl, le_rfl, rfl⟩
  | some e =>
    obtain ⟨hA, rfl, hB, rfl⟩ := h e rfl
    constructor
    · rintro _ ⟨⟩
      exact ⟨Nat.le_succ_of_le hA, rfl, hB, rfl⟩
    · simp only [EditOp.extendDelete, Option.getD_some, Option.toList_some, changeCount_cons,
        changeCount_nil, Edit.lenA, Edit.lenB]
      omega

theorem changeCount_extendInsert (h : ComeTo current i j) :
    ComeTo (some (EditOp.extendInsert current i j)) i (j + 1) ∧
      changeCount [EditOp.extendInsert current i j] = changeCount current.toList + 1 := by
  cases current with
  | none =>
    refine ⟨?_, by simp [EditOp.extendInsert, Edit.lenA, Edit.lenB]⟩
    rintro _ ⟨⟩
    exact ⟨le_rfl, rfl, Nat.le_succ j, rfl⟩
  | some e =>
    obtain ⟨hA, rfl, hB, rfl⟩ := h e rfl
    constructor
    · rintro _ ⟨⟩
      exact ⟨hA, rfl, Nat.le_succ_of_le hB, rfl⟩
    · simp only [EditOp.extendInsert, Option.getD_some, Option.toList_some, changeCount_cons,
        changeCount_nil, Edit.lenA, Edit.lenB]
      omega

/-- Joining a script to edits keeps its deletions and insertions. -/
theorem changeCount_group (h : ComeTo current i j) :
    changeCount (EditOp.group ops i j current) = changeCount current.toList + scriptCost ops := by
  induction ops generalizing current i j with
  | nil =>
    rw [EditOp.group]
    rfl
  | cons op ops ih =>
    cases op with
    | equal =>
      have hnone : ComeTo none (i + 1) (j + 1) := by
        rintro _ ⟨⟩
      rw [EditOp.group, changeCount_append, ih hnone, scriptCost_equal]
      simp
    | delete =>
      obtain ⟨hcome, hcount⟩ := changeCount_extendDelete h
      rw [EditOp.group, ih hcome, scriptCost_delete, Option.toList_some, hcount]
      omega
    | insert =>
      obtain ⟨hcome, hcount⟩ := changeCount_extendInsert h
      rw [EditOp.group, ih hcome, scriptCost_insert, Option.toList_some, hcount]
      omega

/-! ## Replacing everything -/

theorem group_inserts (n s i t j : ℕ) :
    EditOp.group (List.replicate n .insert) i j (some ⟨s, i, t, j⟩) = [⟨s, i, t, j + n⟩] := by
  induction n generalizing j with
  | zero => rfl
  | succ n ih =>
    have hn : j + (n + 1) = j + 1 + n := by omega
    rw [List.replicate_succ, hn]
    exact ih (j + 1)

theorem group_deletes (n s i t j : ℕ) (ops : List EditOp) :
    EditOp.group (List.replicate n .delete ++ ops) i j (some ⟨s, i, t, j⟩) =
      EditOp.group ops (i + n) j (some ⟨s, i + n, t, j⟩) := by
  induction n generalizing i with
  | zero => rfl
  | succ n ih =>
    have hn : i + (n + 1) = i + 1 + n := by omega
    rw [List.replicate_succ, hn]
    exact ih (i + 1)

/-- The script that replaces everything is one edit. -/
theorem group_replaceScript {n : ℕ} (hn : n ≠ 0) (m p : ℕ) :
    EditOp.group (replaceScript n m) p p none = [⟨p, p + n, p, p + m⟩] := by
  obtain ⟨n, rfl⟩ := Nat.exists_eq_succ_of_ne_zero hn
  have hfirst : EditOp.group (replaceScript (n + 1) m) p p none =
      EditOp.group (List.replicate n .delete ++ List.replicate m .insert) (p + 1) p
        (some ⟨p, p + 1, p, p⟩) := rfl
  have hp : p + (n + 1) = p + 1 + n := by omega
  rw [Nat.succ_eq_add_one, hfirst, group_deletes, group_inserts, hp]

/-! ## The search and its limit -/

variable [DecidableEq α]

/-- A script that the search gives does with the edit distance. -/
theorem scriptCost_of_shortestScript
    (h : ShortestScript.shortestScript a.toArray b.toArray limit = .ok (some ops)) :
    scriptCost ops = editDistance a b ∧ (a ≠ [] → b ≠ [] → editDistance a b ≤ limit) := by
  rcases ShortestScript.shortestScript_spec a.toArray b.toArray limit with
    ⟨hnone, -⟩ | ⟨ops', hsome, hpath, hlimit, hleast⟩
  · rw [hnone] at h
    cases h
  · rw [hsome] at h
    cases h
    have hle := hleast _ (reaches_editDistance a b)
    have hge : editDistance a b ≤ scriptCost ops := editDistance_le_scriptCost hpath
    refine ⟨by omega, fun ha hb => ?_⟩
    have hcost := hlimit (by simpa using ha) (by simpa using hb)
    omega

theorem lt_editDistance_of_shortestScript
    (h : ShortestScript.shortestScript a.toArray b.toArray limit = .ok none) :
    limit < editDistance a b := by
  rcases ShortestScript.shortestScript_spec a.toArray b.toArray limit with
    ⟨-, hfar⟩ | ⟨ops, hsome, -⟩
  · by_contra hle
    exact hfar _ (by omega) (reaches_editDistance a b)
  · rw [hsome] at h
    cases h

/-- The search ends without a script just if it would have to go beyond its limit. -/
theorem shortestScript_eq_none_iff (ha : a ≠ []) (hb : b ≠ []) :
    ShortestScript.shortestScript a.toArray b.toArray limit = .ok none ↔
      limit < editDistance a b := by
  refine ⟨lt_editDistance_of_shortestScript, fun hlt => ?_⟩
  rcases ShortestScript.shortestScript_spec a.toArray b.toArray limit with
    ⟨hnone, -⟩ | ⟨ops, hsome, -⟩
  · exact hnone
  · have hle := (scriptCost_of_shortestScript hsome).2 ha hb
    omega

/-- Without elements on one side there is nothing to search for. -/
theorem shortestScript_ne_none_of_nil (h : a = [] ∨ b = []) :
    ShortestScript.shortestScript a.toArray b.toArray limit ≠ .ok none := by
  rw [ShortestScript.shortestScript]
  split_ifs with ha hb
  · simp
  · simp
  · rcases h with rfl | rfl
    · exact absurd rfl ha
    · exact absurd rfl hb

/-- Within the limit, the script for two sequences does with the edit distance. -/
theorem scriptCost_scriptWithin (h : editDistance a b ≤ limit ∨ a = [] ∨ b = []) :
    scriptCost (scriptWithin limit a.toArray b.toArray) = editDistance a b := by
  rw [scriptWithin]
  rcases ShortestScript.shortestScript_spec a.toArray b.toArray limit with
    ⟨hnone, -⟩ | ⟨ops, hsome, -⟩
  · rcases h with hle | hempty
    · have hlt := lt_editDistance_of_shortestScript hnone
      omega
    · exact absurd hnone (shortestScript_ne_none_of_nil hempty)
  · rw [hsome]
    exact (scriptCost_of_shortestScript hsome).1

/-- Beyond the limit, everything is replaced. -/
theorem scriptWithin_of_lt (ha : a ≠ []) (hb : b ≠ []) (hlt : limit < editDistance a b) :
    scriptWithin limit a.toArray b.toArray = replaceScript a.length b.length := by
  rw [scriptWithin, (shortestScript_eq_none_iff ha hb).2 hlt]
  simp

/-- The edits between two sequences delete and insert as little as any script, unless that is more
than is searched for: then one edit replaces all that is left between the common start and the
common end. For sequences that are not empty, the search gives up just where the edit distance
exceeds its limit. -/
theorem edits_shortest (a b : List α) :
    (∃ start middleA middleB finish, Stripped a b start middleA middleB finish) ∧
    (∀ start middleA middleB finish, Stripped a b start middleA middleB finish →
      (editDistance a b ≤ maxEditDistance ∨ middleA = [] ∨ middleB = [] →
        changeCount (edits a b) = editDistance a b) ∧
      (maxEditDistance < editDistance a b → middleA ≠ [] → middleB ≠ [] →
        edits a b = [⟨start.length, start.length + middleA.length,
          start.length, start.length + middleB.length⟩])) ∧
    (∀ ops, EditPath a b ops 0 0 a.length b.length → editDistance a b ≤ scriptCost ops) ∧
    ∀ limit, a ≠ [] → b ≠ [] →
      (ShortestScript.shortestScript a.toArray b.toArray limit = .ok none ↔
        limit < editDistance a b) := by
  refine ⟨?_, ?_, fun ops => editDistance_le_scriptCost,
    fun limit ha hb => shortestScript_eq_none_iff ha hb⟩
  · obtain ⟨start, middleA, middleB, finish, hstripped, -⟩ := exists_stripped a b
    exact ⟨start, middleA, middleB, finish, hstripped⟩
  intro start middleA middleB finish hstripped
  have hdistance := hstripped.editDistance_eq
  constructor
  · intro hwithin
    have hnone : ComeTo none start.length start.length := by
      rintro _ ⟨⟩
    rw [hdistance] at hwithin ⊢
    rw [edits, hstripped.editsWithin_eq, changeCount_group hnone, scriptCost_scriptWithin hwithin]
    simp
  · intro hlt hA hB
    rw [hdistance] at hlt
    rw [edits, hstripped.editsWithin_eq, scriptWithin_of_lt hA hB hlt]
    exact group_replaceScript (by simpa using hA) _ _

end StableFormat
