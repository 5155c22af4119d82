import Mathlib.Data.List.Chain
import StableFormat.Proofs.Orbit.Classification

/-!
# Proofs: the values that a probe has kept

What a probe keeps for diagnosis is a piece of the orbit, without gaps: it can be replayed by applying
the transform to one value after the other. A cycle closes, and any other orbit begins right behind
the text that was probed.
-/

namespace StableFormat.Orbit

variable {ε : Type} {transform : String → Except ε String} {F : String → String} {start : String}
  {bound first count n : ℕ} {p : Probe}

/-- The values that a probe has kept come from each other by the transform: in a cycle the first one
from the last, and in any other orbit the first one from the text that was probed. Some are kept
unless the text is well-behaved, and where the orbit converges it is kept until it stays as it is. -/
structure Traced (transform : String → Except ε String) (p : Probe) : Prop where
  nonempty : p.classification ≠ .wellBehaved → p.orbit ≠ []
  next : p.orbit.IsChain fun v w => transform v = .ok w
  settled : p.classification = .converge → ∃ w, p.orbit.getLast? = some w ∧ transform w = .ok w
  turn : ∀ length, p.classification = .cycle length → ∃ v w,
    p.orbit.head? = some v ∧ p.orbit.getLast? = some w ∧ transform w = .ok v
  first : (∀ length, p.classification ≠ .cycle length) →
    ∀ v, p.orbit.head? = some v → transform p.start = .ok v

theorem isChain_values (hs : Succeeds transform F start n) (hn : first + count ≤ n + 1) :
    (values F start first count).IsChain fun v w => transform v = .ok w := by
  induction count generalizing first with
  | zero => exact .nil
  | succ count ih =>
    cases count with
    | zero => exact .singleton _
    | succ count =>
      have hrest : (values F start (first + 1) (count + 1)).IsChain
          fun v w => transform v = .ok w := ih (by omega)
      rw [values_cons] at hrest
      rw [values_cons, values_cons, List.isChain_cons_cons]
      exact ⟨hs first (by omega), hrest⟩

/-- The first values of an orbit come from its start. -/
theorem apply_of_head?_values (hs : Succeeds transform F start n) (hn : 1 ≤ n) {v : String}
    (hv : (values F start 1 count).head? = some v) : transform start = .ok v := by
  cases count with
  | zero => cases hv
  | succ count =>
    rw [values_cons, List.head?_cons] at hv
    obtain rfl := Option.some.inj hv
    exact hs 0 hn

theorem head?_values (first : ℕ) (h : 0 < count) :
    (values F start first count).head? = some (F^[first] start) := by
  obtain ⟨count, rfl⟩ := Nat.exists_eq_succ_of_ne_zero (Nat.ne_of_gt h)
  rw [values_cons, List.head?_cons]

/-- The last of the values is the one that the number `n` stands for. -/
theorem getLast?_values (hn : first + count = n + 1) (h : 0 < count) :
    (values F start first count).getLast? = some (F^[n] start) := by
  obtain ⟨count, rfl⟩ := Nat.exists_eq_succ_of_ne_zero (Nat.ne_of_gt h)
  obtain rfl : first + count = n := by omega
  rw [values_succ, List.getLast?_concat]

theorem values_ne_nil (h : 0 < count) : values F start first count ≠ [] := by
  rw [← List.length_pos_iff, values_length]
  exact h

/-- What a probe keeps is a trace of the transform that it was made with. -/
theorem probe_traced (h : probe bound transform start = .ok p) : Traced transform p := by
  rcases probe_ok_cases (agrees_totalized transform) h with
    ⟨-, rfl⟩ | ⟨-, i, j, hr, -, hs, rfl⟩ | ⟨-, -, hs, rfl⟩
  · exact ⟨fun h => absurd rfl h, .nil, by rintro ⟨⟩, by rintro length ⟨⟩, by rintro - v ⟨⟩⟩
  · have hpos := hr.pos
    have hlt := hr.lt
    obtain ⟨-, hconverge, hcycle, hsettled, hturning, -⟩ := revisitProbe_spec hr
    -- The value that was there before is the one that the last value is transformed to.
    obtain ⟨k, rfl⟩ : ∃ k, i = k + 1 := ⟨i - 1, by omega⟩
    have hlast := hs k (by omega)
    rw [hr.eq] at hlast
    by_cases hij : k + 1 - j = 1
    · have horbit := hsettled hij
      refine ⟨fun _ => ?_, ?_, fun _ => ?_, ?_, ?_⟩
      · rw [horbit]
        exact values_ne_nil hpos
      · rw [horbit]
        exact isChain_values hs (by omega)
      · obtain rfl : k = j := by omega
        refine ⟨_, ?_, hlast⟩
        rw [horbit]
        exact getLast?_values (by omega) (by omega)
      · intro length hc
        have hshort := ((hcycle length).1 hc).1
        omega
      · intro _ v hv
        rw [horbit] at hv
        exact apply_of_head?_values hs (by omega) hv
    · have horbit := hturning (by omega)
      refine ⟨fun _ => ?_, ?_, ?_, ?_, ?_⟩
      · rw [horbit]
        exact values_ne_nil (by omega)
      · rw [horbit]
        exact isChain_values hs (by omega)
      · intro hc
        exact absurd (hconverge.1 hc).1 hij
      · intro length hc
        refine ⟨_, _, ?_, ?_, hlast⟩
        · rw [horbit]
          exact head?_values j (by omega)
        · rw [horbit]
          exact getLast?_values (by omega) (by omega)
      · intro hnone
        exact absurd ((hcycle (k + 1 - j)).2 ⟨by omega, rfl⟩) (hnone _)
  · refine ⟨fun _ => values_ne_nil (by omega), isChain_values hs (by omega), by rintro ⟨⟩,
      by rintro length ⟨⟩, ?_⟩
    intro _ v hv
    exact apply_of_head?_values hs (by omega) hv

end StableFormat.Orbit
