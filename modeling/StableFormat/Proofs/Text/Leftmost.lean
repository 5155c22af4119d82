import StableFormat.Proofs.Text.Blanks

/-!
# Proofs: removing all matches of a text

What it means to remove all matches of a pattern from a text does not depend on how they are found:
the leftmost match counts, of those that start there the preferred one, and the search goes on behind
it. There is only one result. The scan for blanks at line ends gives that of the pattern for a run of
blanks with the end of a line behind it.
-/

namespace StableFormat.Text

/-- Removes all matches from a text. `Matches found behind` says that `found` matches with `behind`
behind it, and is not used for empty matches. The leftmost match goes, and of several that start there
the longest, which is the first one that a greedy repetition tries. -/
inductive LeftmostRemoved (Matches : List Char → List Char → Prop) : List Char → List Char → Prop
  | done {cs : List Char}
      (none : ∀ front found behind, cs = front ++ (found ++ behind) → ¬ Matches found behind) :
      LeftmostRemoved Matches cs cs
  | found {front found behind out : List Char} (isMatch : Matches found behind)
      (leftmost : ∀ front' found' behind', front ++ (found ++ behind) = front' ++ (found' ++ behind') →
        Matches found' behind' → front.length ≤ front'.length)
      (longest : ∀ found' behind', found ++ behind = found' ++ behind' → Matches found' behind' →
        found'.length ≤ found.length)
      (rest : LeftmostRemoved Matches behind out) :
      LeftmostRemoved Matches (front ++ (found ++ behind)) (front ++ out)

namespace LeftmostRemoved

variable {Matches : List Char → List Char → Prop} {c : Char} {cs out out' : List Char}

theorem inv (h : LeftmostRemoved Matches cs out) :
    (out = cs ∧
        ∀ front found behind, cs = front ++ (found ++ behind) → ¬ Matches found behind) ∨
      ∃ front found behind rest, cs = front ++ (found ++ behind) ∧ out = front ++ rest ∧
        Matches found behind ∧
        (∀ front' found' behind', cs = front' ++ (found' ++ behind') → Matches found' behind' →
          front.length ≤ front'.length) ∧
        (∀ found' behind', found ++ behind = found' ++ behind' → Matches found' behind' →
          found'.length ≤ found.length) ∧
        LeftmostRemoved Matches behind rest := by
  cases h with
  | done none => exact Or.inl ⟨rfl, none⟩
  | found isMatch leftmost longest rest =>
    exact Or.inr ⟨_, _, _, _, rfl, rfl, isMatch, leftmost, longest, rest⟩

/-- There is only one result. -/
theorem unique (h : LeftmostRemoved Matches cs out) (h' : LeftmostRemoved Matches cs out') :
    out = out' := by
  induction h generalizing out' with
  | done none =>
    rcases h'.inv with ⟨rfl, -⟩ | ⟨front, found, behind, rest, hcs, -, hmatch, -⟩
    · rfl
    · exact absurd hmatch (none _ _ _ hcs)
  | found isMatch leftmost longest rest ih =>
    rcases h'.inv with ⟨-, hnone⟩ |
      ⟨front', found', behind', rest', hcs, rfl, hmatch, hleftmost, hlongest, hrest⟩
    · exact absurd isMatch (hnone _ _ _ rfl)
    · have hfront := Nat.le_antisymm (leftmost _ _ _ hcs hmatch) (hleftmost _ _ _ rfl isMatch)
      obtain ⟨rfl, hmiddle⟩ := List.append_inj hcs hfront
      have hfound := Nat.le_antisymm (hlongest _ _ hmiddle.symm isMatch)
        (longest _ _ hmiddle hmatch)
      obtain ⟨rfl, rfl⟩ := List.append_inj hmiddle hfound
      rw [ih hrest]

/-- A character is kept if no match starts there. -/
theorem cons (hnone : ∀ found behind, c :: cs = found ++ behind → ¬ Matches found behind)
    (h : LeftmostRemoved Matches cs out) : LeftmostRemoved Matches (c :: cs) (c :: out) := by
  cases h with
  | done none =>
    refine .done fun front found behind hcs hmatch => ?_
    cases front with
    | nil => exact hnone found behind hcs hmatch
    | cons d front => exact none _ _ _ (List.cons.inj hcs).2 hmatch
  | @found front found behind out isMatch leftmost longest rest =>
    show LeftmostRemoved Matches (c :: front ++ (found ++ behind)) (c :: front ++ out)
    refine .found isMatch (fun front' found' behind' hcs hmatch => ?_) longest rest
    cases front' with
    | nil => exact absurd hmatch (hnone found' behind' hcs)
    | cons d front' =>
      exact Nat.succ_le_succ (leftmost _ _ _ (List.cons.inj hcs).2 hmatch)

end LeftmostRemoved

/-! ## Blanks with the end of a line behind them -/

/-- A match of `[ \t]+$`: blanks, and behind them a line feed or the end of the text. -/
structure BlanksAtLineEnd (run behind : List Char) : Prop where
  ne_nil : run ≠ []
  isBlank : ∀ c ∈ run, Text.isBlank c = true
  lineEnd : atLineEnd behind = true

namespace BlanksAtLineEnd

variable {n : ℕ} {before : Option Char} {c : Char} {cs run behind run' behind' : List Char}

theorem takeWhile_eq (h : BlanksAtLineEnd run behind) :
    (run ++ behind).takeWhile Text.isBlank = run :=
  takeWhile_lead h.isBlank (head?_of_atLineEnd h.lineEnd)

/-- All matches with one start have one end. -/
theorem eq_of_append_eq (h : BlanksAtLineEnd run behind) (h' : BlanksAtLineEnd run' behind')
    (heq : run ++ behind = run' ++ behind') : run = run' := by
  rw [← h.takeWhile_eq, heq, h'.takeWhile_eq]

theorem of_trailingBlanks (h : trailingBlanks before cs = n + 1) :
    BlanksAtLineEnd (cs.take (n + 1)) (cs.drop (n + 1)) := by
  simp only [trailingBlanks] at h
  split at h
  · next hend =>
    rw [h] at hend
    have htake : cs.take (n + 1) = cs.takeWhile Text.isBlank := by
      rw [← h]
      exact (List.prefix_iff_eq_take.1 (List.takeWhile_prefix _)).symm
    refine ⟨?_, fun c hc => ?_, hend⟩
    · rw [htake]
      intro hnil
      rw [hnil] at h
      cases h
    · rw [htake] at hc
      exact List.mem_takeWhile_imp hc
  · cases h

end BlanksAtLineEnd

theorem leftmostRemoved_blanks_nil : LeftmostRemoved BlanksAtLineEnd [] [] := by
  refine .done fun front run behind hcs hmatch => hmatch.ne_nil ?_
  simp only [List.nil_eq, List.append_eq_nil_iff] at hcs
  exact hcs.2.1

/-- A match at the very start is the first one, and the only one there. -/
theorem BlanksAtLineEnd.leftmostRemoved {run behind out : List Char}
    (h : BlanksAtLineEnd run behind) (hrest : LeftmostRemoved BlanksAtLineEnd behind out) :
    LeftmostRemoved BlanksAtLineEnd (run ++ behind) out := by
  show LeftmostRemoved BlanksAtLineEnd ([] ++ (run ++ behind)) ([] ++ out)
  refine .found h (fun _ _ _ _ _ => Nat.zero_le _) (fun run' behind' heq h' => ?_) hrest
  rw [h.eq_of_append_eq h' heq]

/-- The scan for blanks at line ends removes the matches of their pattern. -/
theorem leftmostRemoved_replaceMatches (before : Option Char) (cs : List Char) :
    LeftmostRemoved BlanksAtLineEnd cs (replaceMatches trailingBlanks (fun _ => []) before cs) := by
  fun_induction replaceMatches trailingBlanks (fun _ => []) before cs with
  | case1 before => exact leftmostRemoved_blanks_nil
  | case2 before c cs h ih =>
    refine ih.cons fun run behind hcs hmatch => hmatch.ne_nil ?_
    rw [hcs, trailingBlanks_of_all hmatch.isBlank hmatch.lineEnd] at h
    exact List.length_eq_zero_iff.1 h
  | case3 before c cs n h ih =>
    have hmatch := BlanksAtLineEnd.of_trailingBlanks h
    have hrest := hmatch.leftmostRemoved ih
    rw [List.take_append_drop] at hrest
    exact hrest

end StableFormat.Text
