import StableFormat.Proofs.Orbit.Revisit

/-!
# Proofs: the outcome of probing

A probe is decided by the first value of the orbit that was there before, by the bound, and by the
first application that fails, whichever comes first. Every outcome is described once here; what is
said about probes elsewhere is read off these descriptions.
-/

namespace StableFormat.Orbit

variable {ε : Type} {transform : String → Except ε String} {F : String → String} {start : String}
  {bound i j m : ℕ}

/-- A text that the transform leaves as it is, is clean after one application. -/
theorem probeCounted_clean (h : transform start = .ok start) :
    probeCounted bound transform start = ⟨.ok ⟨start, .wellBehaved, [], start⟩, 1⟩ := by
  simp [probeCounted, h]

/-- A text is well-behaved if the first application gives a text that the transform leaves as it is.
Two applications are allowed under any bound, and no more are made. -/
theorem probe_of_fixed {v : String} (h : transform start = .ok v) (hv : transform v = .ok v)
    (bound : ℕ) :
    ∃ p, probe bound transform start = .ok p ∧ p.classification = .wellBehaved ∧
      p.safeOutput = v := by
  by_cases hne : v = start
  · subst hne
    exact ⟨_, by rw [probe, probeCounted_clean h], rfl, rfl⟩
  · obtain ⟨n, hn⟩ : ∃ n, max bound minIterations - 1 = n + 1 := by
      have : minIterations = 2 := rfl
      exact ⟨max bound minIterations - 2, by omega⟩
    refine ⟨⟨start, .wellBehaved, [v], v⟩, ?_, rfl, rfl⟩
    simp [probe, probeCounted, followOrbit, h, hne, hn, hv]

/-- A failure of the first application is the outcome. -/
theorem probeCounted_error {e : ε} (h : transform start = .error e) :
    probeCounted bound transform start = ⟨.error e, 1⟩ := by
  simp [probeCounted, h]

/-- A text that the transform changes has its orbit followed, `n` values further than the first. -/
theorem probeCounted_changed {n : ℕ} (hne : F start ≠ start) (hn : max bound 2 = n + 1)
    (h : transform start = .ok (F start)) :
    probeCounted bound transform start =
      followOrbit transform start n (values F start 1 1) (F^[1] start) 1 := by
  have hbudget : max bound minIterations - 1 = n := by
    have : minIterations = 2 := rfl
    omega
  simp [probeCounted, h, hne, hbudget, values]

/-- The orbit is followed to a value that is not yet the first one that was there before. -/
theorem probeCounted_advance {n : ℕ} (budget : ℕ) (hne : F start ≠ start)
    (hn : max bound 2 = n + budget + 1) (hd : Distinct F start (n + 1))
    (hs : Succeeds transform F start (n + 1)) :
    probeCounted bound transform start =
      followOrbit transform start budget (values F start 1 (n + 1)) (F^[n + 1] start) (n + 1) := by
  rw [Nat.add_comm n 1] at hd hs ⊢
  rw [probeCounted_changed hne hn (hs 0 (by omega)), followOrbit_advance le_rfl hd hs]

/-- The first value that was there before classifies the orbit, if it comes within the bound. -/
theorem probeCounted_revisit (hne : F start ≠ start) (h : Revisit F start i j)
    (hi : i ≤ max bound 2) (hs : Succeeds transform F start i) :
    probeCounted bound transform start = ⟨.ok (revisitProbe F start i j), i⟩ := by
  have hpos := h.pos
  have hlt := h.lt
  obtain ⟨n, rfl⟩ : ∃ n, i = n + 1 + 1 := ⟨i - 2, by omega⟩
  obtain ⟨budget, hb⟩ : ∃ budget, max bound 2 = n + (budget + 1) + 1 :=
    ⟨max bound 2 - (n + 2), by omega⟩
  have hd : Distinct F start (n + 1) := h.distinct
  rw [probeCounted_advance (budget + 1) hne hb hd fun m hm => hs m (by omega)]
  exact followOrbit_revisit h rfl (hs (n + 1) (by omega))

/-- An orbit of different values up to the bound diverges. -/
theorem probeCounted_distinct (hne : F start ≠ start) (hd : Distinct F start (max bound 2))
    (hs : Succeeds transform F start (max bound 2)) :
    probeCounted bound transform start =
      ⟨.ok ⟨start, .diverge, values F start 1 (max bound 2), start⟩, max bound 2⟩ := by
  obtain ⟨n, hn⟩ : ∃ n, max bound 2 = n + 1 := ⟨max bound 2 - 1, by omega⟩
  rw [hn] at hd hs ⊢
  rw [probeCounted_advance 0 hne hn hd hs, followOrbit]

/-- A failing application is the outcome, if nothing before it has ended the probe. -/
theorem probeCounted_failed {e : ε} (hne : m = 0 ∨ F start ≠ start) (hm : m < max bound 2)
    (hd : Distinct F start m) (hs : Succeeds transform F start m)
    (he : transform (F^[m] start) = .error e) :
    probeCounted bound transform start = ⟨.error e, m + 1⟩ := by
  cases m with
  | zero => exact probeCounted_error he
  | succ n =>
    obtain ⟨budget, hb⟩ : ∃ budget, max bound 2 = n + (budget + 1) + 1 :=
      ⟨max bound 2 - (n + 2), by omega⟩
    have hchanged : F start ≠ start := by simpa using hne
    rw [probeCounted_advance (budget + 1) hchanged hb hd hs, followOrbit, he]

/-- All outcomes of a probe without a failure. -/
theorem probe_ok_cases (hF : Agrees transform F) {p : Probe}
    (h : probe bound transform start = .ok p) :
    (transform start = .ok start ∧ p = ⟨start, .wellBehaved, [], start⟩) ∨
    (F start ≠ start ∧ ∃ i j, Revisit F start i j ∧ i ≤ max bound 2 ∧
      Succeeds transform F start i ∧ p = revisitProbe F start i j) ∨
    (F start ≠ start ∧ Distinct F start (max bound 2) ∧ Succeeds transform F start (max bound 2) ∧
      p = ⟨start, .diverge, values F start 1 (max bound 2), start⟩) := by
  by_cases hne : F start = start
  · left
    cases hv : transform start with
    | error e =>
      rw [probe, probeCounted_error hv] at h
      cases h
    | ok v =>
      obtain rfl : v = start := (hF _ _ hv).trans hne
      rw [probe, probeCounted_clean hv] at h
      cases h
      exact ⟨rfl, rfl⟩
  · right
    -- A failure before the end of the probe would be its outcome.
    have hsucceeds : ∀ n, n ≤ max bound 2 → Distinct F start (n - 1) →
        Succeeds transform F start n := by
      intro n hn hd
      rcases succeeds_or_fails hF start n with hs | ⟨m, hm, hs, e, he⟩
      · exact hs
      · rw [probe, probeCounted_failed (Or.inr hne) (by omega) (hd.mono (by omega)) hs he] at h
        cases h
    rcases distinct_or_revisit F start (max bound 2) with hd | ⟨i, j, hr, hi⟩
    · right
      have hs := hsucceeds _ le_rfl (hd.mono (by omega))
      rw [probe, probeCounted_distinct hne hd hs] at h
      cases h
      exact ⟨hne, hd, hs, rfl⟩
    · left
      have hs := hsucceeds i hi hr.distinct
      rw [probe, probeCounted_revisit hne hr hi hs] at h
      cases h
      exact ⟨hne, i, j, hr, hi, hs, rfl⟩

/-- Only a text that the transform leaves as it is has an empty orbit. -/
theorem probe_clean {p : Probe} (h : probe bound transform start = .ok p)
    (hc : p.isClean = true) :
    transform start = .ok start ∧ p = ⟨start, .wellBehaved, [], start⟩ := by
  have hlength := List.isEmpty_iff_length_eq_zero.1 hc
  rcases probe_ok_cases (agrees_totalized transform) h with
    hclean | ⟨-, i, j, hr, -, -, rfl⟩ | ⟨-, -, -, rfl⟩
  · exact hclean
  · have hpos := hr.pos
    have hlt := hr.lt
    simp only [revisitProbe] at hlength
    split_ifs at hlength <;> simp only [values_length] at hlength <;> omega
  · simp only [values_length] at hlength
    omega

theorem probe_notClean {p : Probe} (h : probe bound transform start = .ok p)
    (hc : p.classification ≠ .wellBehaved) : p.isClean = false := by
  cases hclean : p.isClean with
  | false => rfl
  | true =>
    rw [(probe_clean h hclean).2] at hc
    exact absurd rfl hc

theorem probe_start {p : Probe} (h : probe bound transform start = .ok p) : p.start = start := by
  rcases probe_ok_cases (agrees_totalized transform) h with
    ⟨-, rfl⟩ | ⟨-, i, j, -, -, -, rfl⟩ | ⟨-, -, -, rfl⟩ <;> rfl

/-- The safe output differs from the text exactly if the text is not clean and settles. -/
theorem probe_hasViolation_iff {p : Probe} (h : probe bound transform start = .ok p) :
    p.hasViolation = true ↔ p.isClean = false ∧ p.classification ≠ .diverge := by
  have hF := agrees_totalized transform
  rcases probe_ok_cases hF h with
    ⟨-, rfl⟩ | ⟨hne, i, j, hr, -, -, rfl⟩ | ⟨-, -, -, rfl⟩
  · simp [Probe.hasViolation, Probe.isClean]
  · have hviolation : (revisitProbe (totalized transform) start i j).hasViolation = true :=
      decide_eq_true (hr.ne_start hne)
    have hclean : (revisitProbe (totalized transform) start i j).isClean = false := by
      rw [Bool.eq_false_iff]
      intro hc
      exact hne (hF _ _ (probe_clean h hc).1).symm
    exact ⟨fun _ => ⟨hclean, revisitProbe_ne_diverge _ start i j⟩, fun _ => hviolation⟩
  · simp [Probe.hasViolation]

/-- The transform that gives the values of `F` and never fails. -/
def total (F : String → String) (s : String) : Except ε String :=
  .ok (F s)

theorem succeeds_total (n : ℕ) : Succeeds (total F : String → Except ε String) F start n := by
  intro m _
  rw [total, Function.iterate_succ_apply']

/-- The number of applications and the result do not depend on whether the transform could fail
elsewhere, and before the last application nothing ends the probe but a failure. -/
theorem probeCounted_decided (F : String → String) (start : String) (bound : ℕ) :
    ∃ n p, n ≤ max bound 2 ∧ Distinct F start (n - 1) ∧ (n = 1 ∨ F start ≠ start) ∧
      ∀ transform : String → Except ε String, Succeeds transform F start n →
        probeCounted bound transform start = ⟨.ok p, n⟩ := by
  by_cases hclean : F start = start
  · refine ⟨1, ⟨start, .wellBehaved, [], start⟩, by omega, fun a b ha hab hb => by omega,
      Or.inl rfl, fun transform hs => ?_⟩
    have hfirst : transform start = .ok (F start) := hs 0 (by omega)
    exact probeCounted_clean (hfirst.trans (by rw [hclean]))
  · rcases distinct_or_revisit F start (max bound 2) with hd | ⟨i, j, hr, hi⟩
    · exact ⟨_, _, le_rfl, hd.mono (by omega), Or.inr hclean,
        fun _ hs => probeCounted_distinct hclean hd hs⟩
    · exact ⟨i, _, hi, hr.distinct, Or.inr hclean,
        fun _ hs => probeCounted_revisit hclean hr hi hs⟩

/-- What the first value that was there before says about the orbit. -/
theorem revisitProbe_spec (h : Revisit F start i j) :
    ((revisitProbe F start i j).classification = .wellBehaved ↔ i - j = 1 ∧ j = 1) ∧
    ((revisitProbe F start i j).classification = .converge ↔ i - j = 1 ∧ 2 ≤ j) ∧
    (∀ length, (revisitProbe F start i j).classification = .cycle length ↔
      2 ≤ i - j ∧ length = i - j) ∧
    (i - j = 1 → (revisitProbe F start i j).orbit = values F start 1 j) ∧
    (2 ≤ i - j → (revisitProbe F start i j).orbit = values F start j (i - j)) ∧
    (revisitProbe F start i j).safeOutput = F^[j] start := by
  have hpos := h.pos
  have hlt := h.lt
  refine ⟨?_, ?_, ?_, fun h => if_pos h, fun h => if_neg (by omega), rfl⟩
  · simp only [revisitProbe, revisitClassification]
    split_ifs <;> simp <;> omega
  · simp only [revisitProbe, revisitClassification]
    split_ifs <;> simp <;> omega
  · intro length
    simp only [revisitProbe, revisitClassification]
    split_ifs <;> simp <;> omega

/-! ## Transforms that may fail -/

theorem succeeds_of_no_failure (hF : Agrees transform F)
    (h : ∀ l < m, ∀ e, transform (F^[l] start) ≠ .error e) : Succeeds transform F start m := by
  rcases succeeds_or_fails hF start m with hs | ⟨l, hl, -, e, he⟩
  · exact hs
  · exact absurd he (h l hl e)

/-- The first failure among the applications of a probe is its outcome. -/
theorem probeCounted_first_failure (hF : Agrees transform F) {e : ε}
    (hm : m < (probeCounted bound (total F : String → Except ε String) start).calls)
    (hbefore : ∀ l < m, ∀ d, transform (F^[l] start) ≠ .error d)
    (he : transform (F^[m] start) = .error e) :
    probeCounted bound transform start = ⟨.error e, m + 1⟩ := by
  obtain ⟨n, p, hn, hd, hne, hdecided⟩ := probeCounted_decided (ε := ε) F start bound
  rw [hdecided _ (succeeds_total n)] at hm
  have hmn : m < n := hm
  have hchanged : m = 0 ∨ F start ≠ start := hne.imp_left fun h => by omega
  exact probeCounted_failed hchanged (by omega) (hd.mono (by omega))
    (succeeds_of_no_failure hF hbefore) he

/-- Failures elsewhere do not matter. -/
theorem probeCounted_no_failure (hF : Agrees transform F)
    (h : ∀ m < (probeCounted bound (total F : String → Except ε String) start).calls,
      ∀ e, transform (F^[m] start) ≠ .error e) :
    ∃ p, probeCounted bound transform start =
        ⟨.ok p, (probeCounted bound (total F : String → Except ε String) start).calls⟩ ∧
      probeCounted bound transform start =
        probeCounted bound (total F : String → Except ε String) start := by
  obtain ⟨n, p, -, -, -, hdecided⟩ := probeCounted_decided (ε := ε) F start bound
  rw [hdecided _ (succeeds_total n)] at h ⊢
  have hsame := hdecided transform (succeeds_of_no_failure hF h)
  exact ⟨p, hsame, hsame⟩

theorem probe_ok_iff (hF : Agrees transform F) :
    (∃ p, probe bound transform start = .ok p) ↔
      ∀ m < (probeCounted bound (total F : String → Except ε String) start).calls,
        ∀ e, transform (F^[m] start) ≠ .error e := by
  constructor
  · rintro ⟨q, hq⟩ m hm e he
    -- Of the calls that fail, the first one would be the outcome.
    rcases succeeds_or_fails hF start (m + 1) with hs | ⟨l, hlm, hs, d, hd⟩
    · rw [hs m (by omega)] at he
      cases he
    · have hbefore : ∀ l' < l, ∀ d, transform (F^[l'] start) ≠ .error d := by
        intro l' hl' d' hd'
        rw [hs l' hl'] at hd'
        cases hd'
      rw [probe, probeCounted_first_failure hF (by omega) hbefore hd] at hq
      cases hq
  · intro h
    obtain ⟨p, hp, -⟩ := probeCounted_no_failure hF h
    exact ⟨p, by rw [probe, hp]⟩

/-- How a probe is decided. It is clean if the first value is the start. Otherwise the first value
that was there before, at number `i` and before that at number `j`, gives the classification, the
orbit and the safe output after `i` applications; if it does not come within the bound, the orbit
diverges. A transform that may fail is applied to the same texts in the same order, and its first
failure is the outcome. -/
theorem probe_classifies_orbit (F : String → String) (start : String) (bound : ℕ) :
    let outcome := probeCounted bound (total F : String → Except ε String) start
    ((∃ p, outcome.result = .ok p ∧ p.isClean = true) ↔ F^[1] start = start) ∧
    (F^[1] start = start → outcome = ⟨.ok ⟨start, .wellBehaved, [], start⟩, 1⟩) ∧
    (∀ i j, F^[1] start ≠ start → Revisit F start i j → i ≤ max bound 2 →
      outcome.calls = i ∧ ∃ p, outcome.result = .ok p ∧ p.start = start ∧
        (p.classification = .wellBehaved ↔ i - j = 1 ∧ j = 1) ∧
        (p.classification = .converge ↔ i - j = 1 ∧ 2 ≤ j) ∧
        (∀ length, p.classification = .cycle length ↔ 2 ≤ i - j ∧ length = i - j) ∧
        (i - j = 1 → p.orbit = values F start 1 j) ∧
        (2 ≤ i - j → p.orbit = values F start j (i - j)) ∧
        p.safeOutput = F^[j] start) ∧
    (F^[1] start ≠ start → (∀ i j, Revisit F start i j → max bound 2 < i) →
      outcome = ⟨.ok ⟨start, .diverge, values F start 1 (max bound 2), start⟩, max bound 2⟩ ∧
        (values F start 1 (max bound 2)).Nodup) ∧
    ∀ transform : String → Except ε String, Agrees transform F →
      (∀ m e, m < outcome.calls → (∀ l < m, ∀ d, transform (F^[l] start) ≠ .error d) →
        transform (F^[m] start) = .error e →
          probeCounted bound transform start = ⟨.error e, m + 1⟩) ∧
      ((∀ m < outcome.calls, ∀ e, transform (F^[m] start) ≠ .error e) →
        probeCounted bound transform start = outcome) ∧
      ((∃ p, probe bound transform start = .ok p) ↔
        ∀ m < outcome.calls, ∀ e, transform (F^[m] start) ≠ .error e) := by
  intro outcome
  have hclean : F^[1] start = start → outcome = ⟨.ok ⟨start, .wellBehaved, [], start⟩, 1⟩ :=
    fun h => probeCounted_clean (congrArg Except.ok h)
  have hrevisit : ∀ i j, F^[1] start ≠ start → Revisit F start i j → i ≤ max bound 2 →
      outcome = ⟨.ok (revisitProbe F start i j), i⟩ :=
    fun i j hne hr hi => probeCounted_revisit hne hr hi (succeeds_total i)
  have hdiverge : F^[1] start ≠ start → Distinct F start (max bound 2) →
      outcome = ⟨.ok ⟨start, .diverge, values F start 1 (max bound 2), start⟩, max bound 2⟩ :=
    fun hne hd => probeCounted_distinct hne hd (succeeds_total _)
  refine ⟨⟨?_, ?_⟩, hclean, ?_, ?_, ?_⟩
  · rintro ⟨p, hp, hpc⟩
    exact Except.ok.inj (probe_clean hp hpc).1
  · intro h
    exact ⟨_, by rw [hclean h], rfl⟩
  · intro i j hne hr hi
    rw [hrevisit i j hne hr hi]
    exact ⟨rfl, _, rfl, rfl, revisitProbe_spec hr⟩
  · intro hne hlate
    have hd : Distinct F start (max bound 2) := by
      rcases distinct_or_revisit F start (max bound 2) with hd | ⟨i, j, hr, hi⟩
      · exact hd
      · have := hlate i j hr
        omega
    exact ⟨hdiverge hne hd, hd.nodup⟩
  · intro transform hF
    refine ⟨fun m e hm hbefore he => probeCounted_first_failure hF hm hbefore he, fun h => ?_,
      probe_ok_iff hF⟩
    obtain ⟨p, -, hsame⟩ := probeCounted_no_failure hF h
    exact hsame

end StableFormat.Orbit
