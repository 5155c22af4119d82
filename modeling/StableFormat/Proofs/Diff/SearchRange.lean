import StableFormat.Proofs.Diff.Search

/-!
# Proofs: the search stays inside its arrays

A search that gives a result has read and written nothing outside of its arrays, since every access
is checked. It always gives one. If the far corner is within the limit, the search stops right there,
although points beyond the grid are looked at on the way, and the way back ends at the corner from
which the search has started.
-/

namespace StableFormat

variable {α : Type} {i j i' j' : ℕ} {ops : List EditOp}

/-- How far a path leads in both sequences, by the number of its moves in each. -/
theorem EditPath.countP_eq {a b : List α} (h : EditPath a b ops i j i' j') :
    i' = i + ops.countP (· ≠ .insert) ∧ j' = j + ops.countP (· ≠ .delete) := by
  induction h with
  | done i j => exact ⟨rfl, rfl⟩
  | equal ha hb rest ih =>
    rw [List.countP_cons_of_pos (by decide), List.countP_cons_of_pos (by decide)]
    omega
  | delete ha rest ih =>
    rw [List.countP_cons_of_pos (by decide), List.countP_cons_of_neg (by decide)]
    omega
  | insert hb rest ih =>
    rw [List.countP_cons_of_neg (by decide), List.countP_cons_of_pos (by decide)]
    omega

namespace ShortestScript

variable [DecidableEq α]

/-- The search within a limit, with the point at which it stops. -/
def searchWithin (a b : Array α) (limit : ℕ) : Checked (Option (List (Array ℤ) × (ℤ × ℤ))) :=
  searchTo a b (min (a.size + b.size) limit + 1) 0 (Frontier.start (min (a.size + b.size) limit)) []

/-- No access of a search or of the way back is out of range, whatever the limit. The search gives up,
or it stops at the far corner; from there the way back leads to the near corner, with as many moves
in each sequence as it has elements. -/
theorem shortestScript_inRange (a b : Array α) (limit : ℕ) (ha : a.size ≠ 0) (hb : b.size ≠ 0) :
    search a b (min (a.size + b.size) limit + 1) 0 (Frontier.start (min (a.size + b.size) limit)) [] =
        Option.map Prod.fst <$> searchWithin a b limit ∧
      ((searchWithin a b limit = .ok none ∧ shortestScript a b limit = .ok none) ∨
        ∃ trace ops, searchWithin a b limit = .ok (some (trace, (a.size, b.size))) ∧
          walkBack trace a.size b.size [] = .ok ((0, 0), ops) ∧
          shortestScript a b limit = .ok (some ops) ∧
          ops.countP (· ≠ .insert) = a.size ∧ ops.countP (· ≠ .delete) = b.size) := by
  refine ⟨search_eq a b _ _ _ _, ?_⟩
  rw [shortestScript, if_neg ha, if_neg hb]
  simp only [search_eq]
  rcases searchTo_start a b (min (a.size + b.size) limit) with
    ⟨hnone, -⟩ | ⟨trace, d, hsome, -, hlen, htrace, hcorner, hfirst⟩
  · refine Or.inl ⟨hnone, ?_⟩
    rw [hnone]
    rfl
  · obtain ⟨k, hround, hxge, hyge⟩ := hcorner
    obtain ⟨rfl, hknown⟩ := corner_exact hfirst hround hxge hyge
    obtain ⟨ops, hwalk, hpath, -⟩ :=
      walkBack_spec htrace hlen hround hknown le_rfl le_rfl (.done _ _)
    rw [Array.length_toList, Array.length_toList] at hwalk hpath
    obtain ⟨hcountA, hcountB⟩ := hpath.countP_eq
    refine Or.inr ⟨trace, ops, hsome, hwalk, ?_, by omega, by omega⟩
    simp only [hsome, Checked.map_ok, Option.map_some, Checked.ok_bind, hwalk]
    rfl

/-- With a limit of one, the script that drops the first of two elements is found. -/
theorem shortestScript_inRange_firstDropped :
    #['a', 'b'].size ≠ 0 ∧ #['b'].size ≠ 0 ∧
      ∃ trace ops, searchWithin #['a', 'b'] #['b'] 1 = .ok (some (trace, (2, 1))) ∧
        walkBack trace 2 1 [] = .ok ((0, 0), ops) ∧
        shortestScript #['a', 'b'] #['b'] 1 = .ok (some ops) ∧
        ops.countP (· ≠ .insert) = 2 ∧ ops.countP (· ≠ .delete) = 1 := by
  refine ⟨by decide, by decide, ?_⟩
  rcases (shortestScript_inRange #['a', 'b'] #['b'] 1 (by decide) (by decide)).2 with
    ⟨-, hnone⟩ | hfound
  · have hreach : Reaches ['a', 'b'] ['b'] 1 2 1 := .keep (.drop .corner (by decide)) rfl rfl
    rcases shortestScript_spec #['a', 'b'] #['b'] 1 with ⟨-, hfar⟩ | ⟨ops, hsome, -⟩
    · exact absurd hreach (hfar 1 le_rfl)
    · cases hnone.symm.trans hsome
  · exact hfound

end ShortestScript

end StableFormat
