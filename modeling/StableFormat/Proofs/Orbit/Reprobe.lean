import Mathlib.Data.List.Rotate
import StableFormat.Proofs.Orbit.Classification

/-!
# Proofs: probing a safe output again

What becomes of a text once its safe output has been written over it. A fixed point is clean from
then on. A cycle is found again, within the same bound and by applications that succeeded before;
but the orbit now starts inside the cycle, and the value that it starts from comes last. The member
that is chosen is therefore the next one, and never the one that was written.
-/

namespace StableFormat.Orbit

variable {ε : Type} {transform : String → Except ε String} {F : String → String} {start : String}
  {bound i j : ℕ} {p : Probe}

/-! ## An orbit that starts inside a cycle -/

/-- From a value on the cycle, the first value that was there before comes after one full turn. -/
theorem Revisit.turn (h : Revisit F start i j) (hij : 2 ≤ i - j) :
    Revisit F (F^[j] start) (i - j + 1) 1 := by
  have hpos := h.pos
  have hlt := h.lt
  have hback : F^[i - j] (F^[j] start) = F^[j] start := by
    rw [← Function.iterate_add_apply, Nat.sub_add_cancel hlt.le, h.eq]
  refine ⟨le_rfl, by omega, ?_, ?_⟩
  · rw [Function.iterate_succ_apply', hback, Function.iterate_one]
  · intro a b ha hab hb
    rw [← Function.iterate_add_apply]
    rcases Nat.lt_or_ge b (i - j) with hlt' | hge
    · rw [← Function.iterate_add_apply]
      exact h.distinct (a + j) (b + j) (by omega) (by omega) (by omega)
    · -- The last value of the turn is the one that the orbit started from.
      have hb' : b + j = i := by omega
      rw [hb', h.eq, ← Function.iterate_add_apply]
      exact (h.distinct j (a + j) hpos (by omega) (by omega)).symm

/-- One turn of the cycle takes applications that succeeded on the way into it. -/
theorem Succeeds.turn (hs : Succeeds transform F start i) (h : Revisit F start i j) :
    Succeeds transform F (F^[j] start) (i - j + 1) := by
  have hlt := h.lt
  intro m hm
  rw [← Function.iterate_add_apply, ← Function.iterate_add_apply, Nat.add_right_comm]
  rcases Nat.lt_or_ge (m + j) i with hlt' | hge
  · exact hs (m + j) hlt'
  · have hmj : m + j = i := by omega
    have hnext : F^[i + 1] start = F^[j + 1] start := by
      rw [Function.iterate_succ_apply', h.eq, Function.iterate_succ_apply']
    rw [hmj, hnext, h.eq]
    exact hs j hlt

/-- The values of one turn are the members of the cycle, with the first one last. -/
theorem values_turn (h : Revisit F start i j) :
    values F (F^[j] start) 1 (i - j) = (values F start j (i - j)).rotate 1 := by
  have hlt := h.lt
  obtain ⟨n, hn⟩ : ∃ n, i - j = n + 1 := ⟨i - j - 1, by omega⟩
  have hlast : 1 + j + n = i := by omega
  rw [values_iterate, hn, values_succ, values_cons, List.rotate_cons_succ, List.rotate_zero, hlast,
    h.eq, Nat.add_comm 1 j]

theorem revisitProbe_cycle (hij : 2 ≤ i - j) :
    revisitProbe F start i j =
      ⟨start, .cycle (i - j), values F start j (i - j), F^[j] start⟩ := by
  have hne : i - j ≠ 1 := by omega
  simp [revisitProbe, revisitClassification, hne]

/-- The probe of the chosen member of a cycle. -/
theorem revisitProbe_turn (h : Revisit F start i j) (hij : 2 ≤ i - j) :
    revisitProbe F (F^[j] start) (i - j + 1) 1 =
      ⟨F^[j] start, .cycle (i - j), (values F start j (i - j)).rotate 1, F^[j + 1] start⟩ := by
  rw [revisitProbe_cycle (by omega), Nat.add_sub_cancel, values_turn h, Function.iterate_one,
    Function.iterate_succ_apply']

/-- The value after a member of a cycle is another one. -/
theorem Revisit.next_ne (h : Revisit F start i j) (hij : 2 ≤ i - j) :
    F^[j + 1] start ≠ F^[j] start :=
  h.distinct j (j + 1) h.pos (by omega) (by omega)

/-! ## Probing again -/

theorem probe_diverge_safeOutput (h : probe bound transform start = .ok p)
    (hc : p.classification = .diverge) : p.safeOutput = start := by
  rcases probe_ok_cases (agrees_totalized transform) h with
    ⟨-, rfl⟩ | ⟨-, i, j, -, -, -, rfl⟩ | ⟨-, -, -, rfl⟩
  · rfl
  · exact absurd hc (revisitProbe_ne_diverge _ start i j)
  · rfl

/-- A well-behaved or converging orbit ends in a fixed point, which is then clean. -/
theorem probe_again_fixed (h : probe bound transform start = .ok p)
    (hc : p.classification = .wellBehaved ∨ p.classification = .converge) :
    probe bound transform p.safeOutput = .ok ⟨p.safeOutput, .wellBehaved, [], p.safeOutput⟩ := by
  rcases probe_ok_cases (agrees_totalized transform) h with
    ⟨hfix, rfl⟩ | ⟨-, i, j, hr, -, hs, rfl⟩ | ⟨-, -, -, rfl⟩
  · rw [probe, probeCounted_clean hfix]
  · have hij : i = j + 1 := by
      have hlt := hr.lt
      simp only [revisitProbe, revisitClassification] at hc
      split_ifs at hc <;> first | omega | simp at hc
    have hfix := hs j hr.lt
    rw [← hij, hr.eq] at hfix
    rw [probe, revisitProbe, probeCounted_clean hfix]
  · simp at hc

/-- A cycle is found again from its chosen member, with the same members in the same order, but
starting from the next one; that one is also the new choice. -/
theorem probe_again_cycle {length : ℕ} (h : probe bound transform start = .ok p)
    (hc : p.classification = .cycle length) :
    ∃ next, probe bound transform p.safeOutput =
        .ok ⟨p.safeOutput, .cycle length, p.orbit.rotate 1, next⟩ ∧
      next = p.orbit.getD 1 p.safeOutput ∧ next ≠ p.safeOutput := by
  obtain ⟨F, hF⟩ : ∃ F, Agrees transform F := ⟨_, agrees_totalized transform⟩
  rcases probe_ok_cases hF h with
    ⟨-, rfl⟩ | ⟨-, i, j, hr, hi, hs, rfl⟩ | ⟨-, -, -, rfl⟩
  · cases hc
  · have hpos := hr.pos
    have hlt := hr.lt
    have hij : 2 ≤ i - j := by
      simp only [revisitProbe, revisitClassification] at hc
      split_ifs at hc
      omega
    rw [revisitProbe_cycle hij] at hc ⊢
    obtain rfl := Classification.cycle.inj hc
    have hchanged : F (F^[j] start) ≠ F^[j] start := by
      rw [← Function.iterate_succ_apply' F]
      exact hr.next_ne hij
    have hbound : i - j + 1 ≤ max bound 2 := by omega
    have hprobe := probeCounted_revisit hchanged (hr.turn hij) hbound (hs.turn hr)
    refine ⟨F^[j + 1] start, ?_, ?_, hr.next_ne hij⟩
    · rw [probe, hprobe, revisitProbe_turn hr hij]
    · obtain ⟨n, hn⟩ : ∃ n, i - j = n + 2 := ⟨i - j - 2, by omega⟩
      rw [hn, values_cons, values_cons]
      rfl
  · cases hc

end StableFormat.Orbit
