import Mathlib.Data.List.Infix
import StableFormat.Proofs.Orbit.Reprobe

/-!
# Proofs: the bound on the number of applications

A larger bound only helps. A run with a larger bound makes the same applications as one with a
smaller bound until the latter gives up, so that a decision of the smaller run, or its failure,
stands under every larger bound. An orbit that repeats is decided under every bound behind its first
repetition.
-/

namespace StableFormat.Orbit

variable {ε : Type} {transform : String → Except ε String} {F : String → String} {start : String}
  {bound a b i j m n : ℕ} {p q : Probe}

/-! ## Two runs of different length -/

/-- A run that does not give up makes no use of further applications. -/
theorem followOrbit_budget {budget : ℕ} {history : List String} {current : String} {calls : ℕ}
    (h : ∀ p, (followOrbit transform start budget history current calls).result = .ok p →
      p.classification ≠ .diverge) (more : ℕ) :
    followOrbit transform start (budget + more) history current calls =
      followOrbit transform start budget history current calls := by
  induction budget generalizing history current calls with
  | zero => exact absurd rfl (h _ rfl)
  | succ budget ih =>
    have hbudget : budget + 1 + more = budget + more + 1 := by omega
    rw [hbudget]
    rw [followOrbit] at h ⊢
    conv_rhs => rw [followOrbit]
    cases hnext : transform current with
    | error e => rfl
    | ok next =>
      simp only [hnext] at h ⊢
      -- Only a new value leads to the rest of the run.
      by_cases hfixed : next = current
      · rw [if_pos hfixed, if_pos hfixed]
      · rw [if_neg hfixed] at h ⊢
        rw [if_neg hfixed]
        by_cases hseen : next ∈ history
        · rw [if_pos hseen, if_pos hseen]
        · rw [if_neg hseen] at h ⊢
          rw [if_neg hseen]
          exact ih h

/-- A probe that is decided within a bound, or that fails, is the same under larger bounds. -/
theorem probeCounted_of_le (hnm : n ≤ m)
    (h : ∀ p, probe n transform start = .ok p → p.classification ≠ .diverge) :
    probeCounted m transform start = probeCounted n transform start := by
  rw [probe, probeCounted] at h
  rw [probeCounted, probeCounted]
  cases hfirst : transform start with
  | error e => rfl
  | ok first =>
    simp only [hfirst] at h ⊢
    by_cases hclean : first = start
    · rw [if_pos hclean, if_pos hclean]
    · rw [if_neg hclean] at h ⊢
      rw [if_neg hclean]
      have hmin : minIterations = 2 := rfl
      obtain ⟨more, hmore⟩ : ∃ more,
          max m minIterations - 1 = max n minIterations - 1 + more :=
        ⟨max m minIterations - max n minIterations, by omega⟩
      rw [hmore]
      exact followOrbit_budget h more

/-! ## Orbits that diverge -/

theorem values_isPrefix (first : ℕ) (h : n ≤ m) :
    values F start first n <+: values F start first m := by
  obtain ⟨k, rfl⟩ := Nat.exists_eq_add_of_le h
  induction k with
  | zero => exact List.prefix_rfl
  | succ k ih =>
    rw [← Nat.add_assoc, values_succ]
    exact (ih (by omega)).trans (List.prefix_append _ _)

/-- The orbit of a diverging probe is as long as the bound. -/
theorem orbit_of_diverge (hF : Agrees transform F) (h : probe bound transform start = .ok p)
    (hc : p.classification = .diverge) : p.orbit = values F start 1 (max bound 2) := by
  rcases probe_ok_cases hF h with ⟨-, rfl⟩ | ⟨-, i, j, -, -, -, rfl⟩ | ⟨-, -, -, rfl⟩
  · cases hc
  · exact absurd hc (revisitProbe_ne_diverge F start i j)
  · rfl

/-! ## Orbits that repeat -/

/-- The application that follows a repeated value has been made before. -/
theorem Succeeds.repeated (hs : Succeeds transform F start b) (hab : a < b)
    (heq : F^[b] start = F^[a] start) : Succeeds transform F start (b + 1) := by
  intro k hk
  rcases Nat.lt_or_ge k b with hlt | hge
  · exact hs k hlt
  · obtain rfl : k = b := by omega
    rw [heq, Function.iterate_succ_apply', heq, ← Function.iterate_succ_apply' F]
    exact hs a hab

/-- If a value comes back, be it the start, then some value behind the start has come back after one
more application. -/
theorem exists_revisit_of_repeated (hab : a < b) (heq : F^[b] start = F^[a] start) :
    ∃ i j, Revisit F start i j ∧ i ≤ b + 1 := by
  rcases distinct_or_revisit F start (b + 1) with hd | hr
  · have hnext : F^[b + 1] start = F^[a + 1] start := by
      rw [Function.iterate_succ_apply', heq, Function.iterate_succ_apply']
    exact absurd hnext (hd (a + 1) (b + 1) (by omega) (by omega) le_rfl)
  · exact hr

/-- A repeated orbit is decided as soon as the bound lies behind the repetition. -/
theorem probe_of_repeated (hs : Succeeds transform F start b) (hab : a < b)
    (heq : F^[b] start = F^[a] start) (hbound : b < bound) :
    ∃ p, probe bound transform start = .ok p ∧ p.classification ≠ .diverge := by
  by_cases hclean : F start = start
  · have hfirst : transform start = .ok (F start) := hs 0 (by omega)
    rw [hclean] at hfirst
    exact ⟨_, by rw [probe, probeCounted_clean hfirst], by simp⟩
  · obtain ⟨i, j, hr, hi⟩ := exists_revisit_of_repeated hab heq
    have hsi : Succeeds transform F start i := fun k hk => hs.repeated hab heq k (by omega)
    exact ⟨_, by rw [probe, probeCounted_revisit hclean hr (by omega) hsi],
      revisitProbe_ne_diverge F start i j⟩

/-- The bound does not change what a probe finds, only whether it finds something. A result that is
no divergence is the same under every larger bound, with as many applications, and so is a failure;
the orbit of a divergence grows with the bound. An orbit that repeats is found not to diverge under
every bound behind its repetition. -/
theorem probe_of_larger_bound (hnm : n ≤ m) (transform : String → Except ε String)
    (start : String) :
    (∀ p, probe n transform start = .ok p → p.classification ≠ .diverge →
      probeCounted m transform start = probeCounted n transform start ∧
        probe m transform start = .ok p) ∧
    (∀ e, probe n transform start = .error e →
      probeCounted m transform start = probeCounted n transform start ∧
        probe m transform start = .error e) ∧
    (∀ p q, probe n transform start = .ok p → p.classification = .diverge →
      probe m transform start = .ok q → q.classification = .diverge → p.orbit <+: q.orbit) ∧
    ∀ (F : String → String) (a b : ℕ), a < b → F^[b] start = F^[a] start →
      Succeeds transform F start b → ∀ bound, b < bound →
        ∃ p, probe bound transform start = .ok p ∧ p.classification ≠ .diverge := by
  refine ⟨?decided, ?failed, ?diverges, ?repeated⟩
  case decided =>
    intro p hp hc
    have hsame : probeCounted m transform start = probeCounted n transform start := by
      refine probeCounted_of_le hnm fun q hq => ?_
      rw [hp] at hq
      cases hq
      exact hc
    exact ⟨hsame, by rw [probe, hsame]; exact hp⟩
  case failed =>
    intro e he
    have hsame : probeCounted m transform start = probeCounted n transform start := by
      refine probeCounted_of_le hnm fun q hq => ?_
      rw [he] at hq
      cases hq
    exact ⟨hsame, by rw [probe, hsame]; exact he⟩
  case diverges =>
    intro p q hp hpc hq hqc
    have hF := agrees_totalized transform
    rw [orbit_of_diverge hF hp hpc, orbit_of_diverge hF hq hqc]
    exact values_isPrefix 1 (by omega)
  case repeated =>
    intro F a b hab heq hs bound hbound
    exact probe_of_repeated hs hab heq hbound

/-- A transform with a failure on the orbit of `CCC`, and one whose orbit of `CCC` repeats: under the
bounds 2 and 3 the first one diverges, under 4 it fails, and the second one cycles from 3 on. -/
theorem probe_of_larger_bound_stairs :
    let stairs : String → Except String String := fun s =>
      if s = "CCC" then .ok "A" else if s = "A" then .ok "B" else if s = "B" then .ok "C"
      else .error "broken"
    let pingPong : String → Except String String := fun s => .ok (if s = "A" then "B" else "A")
    (2 ≤ 3 ∧ ∃ p q, probe 2 stairs "CCC" = .ok p ∧ probe 3 stairs "CCC" = .ok q ∧
      p.orbit = ["A", "B"] ∧ p.orbit <+: q.orbit) ∧
    (4 ≤ 9 ∧ probe 4 stairs "CCC" = .error "broken" ∧
      probeCounted 9 stairs "CCC" = probeCounted 4 stairs "CCC") ∧
    (3 ≤ 10 ∧ (∃ p, probe 3 pingPong "CCC" = .ok p ∧ p.classification = .cycle 2 ∧
        probe 10 pingPong "CCC" = .ok p) ∧
      ∃ p, probe 100 pingPong "CCC" = .ok p ∧ p.classification ≠ .diverge) := by
  intro stairs pingPong
  have hpair : probe 2 stairs "CCC" = .ok ⟨"CCC", .diverge, ["A", "B"], "CCC"⟩ := by decide
  have htriple : probe 3 stairs "CCC" = .ok ⟨"CCC", .diverge, ["A", "B", "C"], "CCC"⟩ := by decide
  have hbroken : probe 4 stairs "CCC" = .error "broken" := by decide
  have hcycle : probe 3 pingPong "CCC" = .ok ⟨"CCC", .cycle 2, ["A", "B"], "A"⟩ := by decide
  have hrepeated := (probe_of_larger_bound (by decide : 3 ≤ 10) pingPong "CCC").2.2.2
    (fun s => if s = "A" then "B" else "A") 1 3 (by decide) (by decide) (fun k _ => by
      rw [Function.iterate_succ_apply'])
  refine ⟨⟨by decide, _, _, hpair, htriple, rfl, ?_⟩, ⟨by decide, hbroken, ?_⟩,
    by decide, ⟨_, hcycle, rfl, ?_⟩, hrepeated 100 (by decide)⟩
  · exact (probe_of_larger_bound (by decide : 2 ≤ 3) stairs "CCC").2.2.1 _ _ hpair rfl htriple rfl
  · exact ((probe_of_larger_bound (by decide : 4 ≤ 9) stairs "CCC").2.1 _ hbroken).1
  · exact ((probe_of_larger_bound (by decide : 3 ≤ 10) pingPong "CCC").1 _ hcycle (by decide)).2

end StableFormat.Orbit
