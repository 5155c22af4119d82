import Mathlib.Order.Bounds.Basic
import StableFormat.Proofs.Orbit.Reprobe

/-!
# Proofs: the safe output is a stable choice

What may be relied on once a text has been replaced by its safe output. A fixed point stays, a
member of a cycle comes back after exactly one turn of the cycle and not before, and a diverging
text has not been replaced at all.
-/

namespace StableFormat.Orbit

variable {ε : Type} {transform : String → Except ε String} {F : String → String} {start : String}
  {bound length a i j : ℕ} {p : Probe}

/-! ## The members of a cycle -/

theorem values_getElem? {first count : ℕ} (ha : a < count) :
    (values F start first count)[a]? = some (F^[first + a] start) := by
  have hlength : a < (List.range' first count).length := by rwa [List.length_range']
  rw [values, List.getElem?_map, List.getElem?_eq_getElem hlength, List.getElem_range', Nat.one_mul,
    Option.map_some]

theorem Revisit.members_nodup (h : Revisit F start i j) : (values F start j (i - j)).Nodup := by
  rw [← dropWhile_values h]
  exact h.distinct.nodup.sublist (List.dropWhile_sublist _)

/-- Behind the last member of a cycle comes the first one again. -/
theorem Revisit.apply_member (h : Revisit F start i j) (ha : a < i - j) :
    F (F^[j + a] start) = F^[j + (a + 1) % (i - j)] start := by
  have hlt := h.lt
  rw [← Function.iterate_succ_apply' F]
  rcases Nat.lt_or_ge (a + 1) (i - j) with hinside | hlast
  · rw [Nat.mod_eq_of_lt hinside]
    rfl
  · have hturn : a + 1 = i - j := by omega
    have hi : (j + a).succ = i := by omega
    rw [hturn, Nat.mod_self, Nat.add_zero, hi, h.eq]

/-- A member of a cycle does not come back before the turn is complete: the values of the turn were
all new when the orbit came to them. -/
theorem Revisit.isLeast_period (h : Revisit F start i j) :
    IsLeast {k | 0 < k ∧ F^[k] (F^[j] start) = F^[j] start} (i - j) := by
  have hpos := h.pos
  have hlt := h.lt
  constructor
  · refine ⟨by omega, ?_⟩
    rw [← Function.iterate_add_apply, Nat.sub_add_cancel hlt.le, h.eq]
  · rintro k ⟨hk, hback⟩
    by_contra hshort
    rw [← Function.iterate_add_apply] at hback
    exact h.distinct j (k + j) hpos (by omega) (by omega) hback

/-! ## The safe output of a total transform -/

theorem agrees_total (F : String → String) : Agrees (total F : String → Except ε String) F := by
  intro s v h
  exact (Except.ok.inj h).symm

theorem probe_total (F : String → String) (start : String) (bound : ℕ) :
    ∃ p, probe bound (total F : String → Except ε String) start = .ok p := by
  rw [probe_ok_iff (agrees_total F)]
  intro m hm e he
  cases he

/-- The orbit of a cycle and its safe output, by the numbers of the values that made it known. -/
theorem probe_cycle_revisit (hF : Agrees transform F) (h : probe bound transform start = .ok p)
    (hc : p.classification = .cycle length) :
    ∃ i j, Revisit F start i j ∧ 2 ≤ i - j ∧ length = i - j ∧
      p.orbit = values F start j (i - j) ∧ p.safeOutput = F^[j] start := by
  rcases probe_ok_cases hF h with
    ⟨-, rfl⟩ | ⟨-, i, j, hr, -, -, rfl⟩ | ⟨-, -, -, rfl⟩
  · cases hc
  · obtain ⟨-, -, hcycle, -, horbit, hsafe⟩ := revisitProbe_spec hr
    obtain ⟨hij, hlength⟩ := (hcycle length).1 hc
    exact ⟨i, j, hr, hij, hlength, horbit hij, hsafe⟩
  · cases hc

/-- A settled text is a fixed point. -/
theorem safeOutput_fixed (h : probe bound (total F : String → Except ε String) start = .ok p)
    (hc : p.classification = .wellBehaved ∨ p.classification = .converge) :
    F p.safeOutput = p.safeOutput := by
  have hagain := probe_again_fixed h hc
  exact Except.ok.inj (probe_clean hagain rfl).1

/-- The safe output is a stable choice. If the orbit settles, the safe output is a fixed point and
clean when it is probed. If the orbit cycles, its members are different and the transform leads from
each to the next one, the safe output comes back after as many applications as there are members and
not before, and under the same bound it is found to cycle through the same members, the second one
first. If the orbit diverges, the text stays as it is. Only clean and diverging texts stay. -/
theorem safeOutput_stable (F : String → String) (start : String) (bound : ℕ) :
    ∃ p, probe bound (total F : String → Except ε String) start = .ok p ∧
      (p.classification = .wellBehaved ∨ p.classification = .converge →
        F p.safeOutput = p.safeOutput ∧
        ∃ again, probe bound (total F : String → Except ε String) p.safeOutput = .ok again ∧
          again.isClean = true) ∧
      (∀ length, p.classification = .cycle length →
        2 ≤ length ∧ p.orbit.length = length ∧ p.orbit.Nodup ∧
        (∀ a < length, ∃ member, p.orbit[a]? = some member ∧
          p.orbit[(a + 1) % length]? = some (F member)) ∧
        IsLeast {k | 0 < k ∧ F^[k] p.safeOutput = p.safeOutput} length ∧
        ∃ again, probe bound (total F : String → Except ε String) p.safeOutput = .ok again ∧
          again.classification = .cycle length ∧ again.orbit = p.orbit.rotate 1) ∧
      (p.classification = .diverge → p.safeOutput = start) ∧
      (p.hasViolation = false ↔ p.isClean = true ∨ p.classification = .diverge) := by
  obtain ⟨p, hp⟩ := probe_total (ε := ε) F start bound
  refine ⟨p, hp, ?settled, ?cycle, ?diverge, ?violation⟩
  case settled =>
    intro hc
    exact ⟨safeOutput_fixed hp hc, _, probe_again_fixed hp hc, rfl⟩
  case cycle =>
    intro length hc
    obtain ⟨next, hagain, -, -⟩ := probe_again_cycle hp hc
    obtain ⟨i, j, hr, hij, hlength, horbit, hsafe⟩ := probe_cycle_revisit (agrees_total F) hp hc
    subst hlength
    refine ⟨hij, ?_, ?_, ?_, ?_, _, hagain, rfl, rfl⟩
    · rw [horbit, values_length]
    · rw [horbit]
      exact hr.members_nodup
    · intro a ha
      have hnext : (a + 1) % (i - j) < i - j := Nat.mod_lt _ (by omega)
      rw [horbit]
      refine ⟨_, values_getElem? ha, ?_⟩
      rw [values_getElem? hnext, hr.apply_member ha]
    · rw [hsafe]
      exact hr.isLeast_period
  case diverge =>
    intro hc
    exact probe_diverge_safeOutput hp hc
  case violation =>
    have hviolation := probe_hasViolation_iff hp
    rw [← Bool.not_eq_true, hviolation, not_and_or, Bool.not_eq_false, not_not]

end StableFormat.Orbit
