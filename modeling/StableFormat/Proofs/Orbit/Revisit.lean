import Mathlib.Data.List.Nodup
import Mathlib.Data.List.Range
import Mathlib.Logic.Function.Iterate
import StableFormat.Orbit.Probe

/-!
# Proofs: the values of an orbit and the outcome of probing it

A transform that may fail is compared with a total function `F` that gives the same value wherever
the transform gives one. The orbit of `start` is then `F start`, `F (F start)`, …, written
`F^[1] start`, `F^[2] start`, …, and probing goes on along it until the first value that was there
before.
-/

namespace StableFormat.Orbit

variable {ε : Type} {transform : String → Except ε String} {F : String → String} {start : String}
  {budget i j k m n : ℕ}

/-- Where the transform gives a value, it is that of `F`. -/
def Agrees (transform : String → Except ε String) (F : String → String) : Prop :=
  ∀ s v, transform s = .ok v → v = F s

/-- The total function that leaves a text as it is where the transform fails. -/
def totalized (transform : String → Except ε String) (s : String) : String :=
  match transform s with
  | .ok v => v
  | .error _ => s

theorem agrees_totalized (transform : String → Except ε String) :
    Agrees transform (totalized transform) := by
  intro s v h
  simp [totalized, h]

/-- `count` values of the orbit, from the one with the number `first` on. -/
def values (F : String → String) (start : String) (first count : ℕ) : List String :=
  (List.range' first count).map (F^[·] start)

/-- The first `n` values of the orbit are all different. The start itself is not among them. -/
def Distinct (F : String → String) (start : String) (n : ℕ) : Prop :=
  ∀ a b, 1 ≤ a → a < b → b ≤ n → F^[b] start ≠ F^[a] start

/-- The value with the number `i` is the first one that was there before, with the number `j`. -/
structure Revisit (F : String → String) (start : String) (i j : ℕ) : Prop where
  pos : 1 ≤ j
  lt : j < i
  eq : F^[i] start = F^[j] start
  distinct : Distinct F start (i - 1)

/-- The first `n` applications of the transform along the orbit succeed. -/
def Succeeds (transform : String → Except ε String) (F : String → String) (start : String)
    (n : ℕ) : Prop :=
  ∀ m < n, transform (F^[m] start) = .ok (F^[m + 1] start)

/-! ## Values of an orbit -/

@[simp]
theorem values_length (first count : ℕ) : (values F start first count).length = count := by
  simp [values]

@[simp]
theorem values_zero (first : ℕ) : values F start first 0 = [] := rfl

theorem values_succ (first count : ℕ) :
    values F start first (count + 1) =
      values F start first count ++ [F^[first + count] start] := by
  simp [values, List.range'_concat]

theorem values_cons (first count : ℕ) :
    values F start first (count + 1) =
      F^[first] start :: values F start (first + 1) count := by
  simp [values, List.range'_succ]

theorem mem_values {first count : ℕ} {v : String} :
    v ∈ values F start first count ↔ ∃ a, first ≤ a ∧ a < first + count ∧ F^[a] start = v := by
  simp [values, List.mem_range'_1, and_assoc]

/-- The orbit of a value of an orbit is the rest of that orbit. -/
theorem values_iterate (first count : ℕ) :
    values F (F^[n] start) first count = values F start (first + n) count := by
  induction count with
  | zero => rfl
  | succ count ih =>
    have hn : first + count + n = first + n + count := by omega
    rw [values_succ, values_succ, ih, ← Function.iterate_add_apply, hn]

theorem Distinct.mono (h : Distinct F start n) (hm : m ≤ n) : Distinct F start m :=
  fun a b ha hab hb => h a b ha hab (by omega)

theorem Distinct.nodup (h : Distinct F start n) : (values F start 1 n).Nodup := by
  induction n with
  | zero => simp
  | succ n ih =>
    rw [values_succ, List.nodup_append]
    refine ⟨ih (h.mono (by omega)), List.nodup_singleton _, ?_⟩
    intro v hv w hw hvw
    obtain ⟨a, ha, han, rfl⟩ := mem_values.1 hv
    obtain rfl := List.mem_singleton.1 hw
    exact h a (1 + n) ha (by omega) (by omega) hvw.symm

/-- Either the first values are all different, or one of them is the first that was there before. -/
theorem distinct_or_revisit (F : String → String) (start : String) (n : ℕ) :
    Distinct F start n ∨ ∃ i j, Revisit F start i j ∧ i ≤ n := by
  induction n with
  | zero => exact Or.inl fun a b ha hab hb => by omega
  | succ n ih =>
    rcases ih with h | ⟨i, j, h, hi⟩
    · by_cases hr : ∃ j, 1 ≤ j ∧ j < n + 1 ∧ F^[n + 1] start = F^[j] start
      · obtain ⟨j, hj, hjn, heq⟩ := hr
        exact Or.inr ⟨n + 1, j, ⟨hj, hjn, heq, by simpa using h⟩, le_rfl⟩
      · left
        intro a b ha hab hb
        rcases Nat.lt_or_ge b (n + 1) with hlt | hge
        · exact h a b ha hab (by omega)
        · obtain rfl : b = n + 1 := by omega
          exact fun heq => hr ⟨a, ha, hab, heq⟩
    · exact Or.inr ⟨i, j, h, by omega⟩

/-- An orbit that leaves its start does not come back to it first: the value after the start would
have come back no later than that. -/
theorem Revisit.ne_start (h : Revisit F start i j) (hne : F start ≠ start) : F^[j] start ≠ start := by
  intro heq
  have hpos := h.pos
  have hlt := h.lt
  have hnext : F^[j + 1] start = F start := by rw [Function.iterate_succ_apply', heq]
  rcases Nat.lt_or_ge (j + 1) i with hbefore | hat
  · exact h.distinct 1 (j + 1) le_rfl (by omega) (by omega) hnext
  · have hi : i = j + 1 := by omega
    apply hne
    rw [← hnext, ← hi, h.eq, heq]

/-- Either the first applications all succeed, or one of them is the first that fails. -/
theorem succeeds_or_fails (h : Agrees transform F) (start : String) (n : ℕ) :
    Succeeds transform F start n ∨
      ∃ m < n, Succeeds transform F start m ∧ ∃ e, transform (F^[m] start) = .error e := by
  induction n with
  | zero => exact Or.inl fun m hm => by omega
  | succ n ih =>
    rcases ih with hs | ⟨m, hm, hf⟩
    · cases hv : transform (F^[n] start) with
      | error e => exact Or.inr ⟨n, by omega, hs, e, hv⟩
      | ok v =>
        left
        intro m hm
        rcases Nat.lt_or_ge m n with hlt | hge
        · exact hs m hlt
        · obtain rfl : m = n := by omega
          rw [hv, h _ _ hv, Function.iterate_succ_apply']
    · exact Or.inr ⟨m, by omega, hf⟩

/-! ## Following an orbit -/

/-- One more value that was not there before joins the history. -/
theorem followOrbit_step (hk : 1 ≤ k) (hd : Distinct F start (k + 1))
    (hs : transform (F^[k] start) = .ok (F^[k + 1] start)) :
    followOrbit transform start (budget + 1) (values F start 1 k) (F^[k] start) k =
      followOrbit transform start budget (values F start 1 (k + 1)) (F^[k + 1] start)
        (k + 1) := by
  have hne : F^[k + 1] start ≠ F^[k] start := hd k (k + 1) hk (by omega) le_rfl
  have hmem : F^[k + 1] start ∉ values F start 1 k := by
    intro h
    obtain ⟨a, ha, hak, heq⟩ := mem_values.1 h
    exact hd a (k + 1) ha (by omega) le_rfl heq.symm
  rw [followOrbit, hs]
  simp only [hne, hmem, if_false]
  rw [values_succ, Nat.add_comm 1 k]

/-- As long as the values are new, following an orbit only makes the history longer. -/
theorem followOrbit_advance (hk : 1 ≤ k) (hd : Distinct F start (k + n))
    (hs : Succeeds transform F start (k + n)) :
    followOrbit transform start (n + budget) (values F start 1 k) (F^[k] start) k =
      followOrbit transform start budget (values F start 1 (k + n)) (F^[k + n] start)
        (k + n) := by
  induction n generalizing k with
  | zero => simp
  | succ n ih =>
    have hstep : transform (F^[k] start) = .ok (F^[k + 1] start) := hs k (by omega)
    have hn : n + 1 + budget = n + budget + 1 := by omega
    have hkn : k + (n + 1) = k + 1 + n := by omega
    rw [hkn] at hd hs ⊢
    rw [hn, followOrbit_step hk (hd.mono (by omega)) hstep, ih (by omega) hd hs]

/-- The classification of an orbit whose value with the number `i` is that with the number `j`. -/
def revisitClassification (i j : ℕ) : Classification :=
  if i - j = 1 then if j = 1 then .wellBehaved else .converge else .cycle (i - j)

/-- The probe of an orbit whose value with the number `i` is that with the number `j`. -/
def revisitProbe (F : String → String) (start : String) (i j : ℕ) : Probe :=
  { start := start
    classification := revisitClassification i j
    orbit := if i - j = 1 then values F start 1 j else values F start j (i - j)
    safeOutput := F^[j] start }

/-- An orbit that comes back to a value does not diverge. -/
theorem revisitProbe_ne_diverge (F : String → String) (start : String) (i j : ℕ) :
    (revisitProbe F start i j).classification ≠ .diverge := by
  simp only [revisitProbe, revisitClassification]
  split_ifs <;> simp

/-- From the first occurrence of a value on, the history is the block that repeats. -/
theorem dropWhile_values (h : Revisit F start i j) :
    (values F start 1 (i - 1)).dropWhile (· ≠ F^[j] start) = values F start j (i - j) := by
  have hsplit : values F start 1 (i - 1) =
      values F start 1 (j - 1) ++ values F start j (i - j) := by
    have hpos := h.pos
    have hlt := h.lt
    have hj : 1 + (j - 1) = j := by omega
    have hi : (j - 1) + (i - j) = i - 1 := by omega
    have hrange := @List.range'_append_1 1 (j - 1) (i - j)
    rw [hj, hi] at hrange
    rw [values, values, values, ← List.map_append, hrange]
  have hall : ∀ v ∈ values F start 1 (j - 1), decide (v ≠ F^[j] start) = true := by
    intro v hv
    obtain ⟨a, ha, haj, rfl⟩ := mem_values.1 hv
    have hne := h.distinct a j ha (by omega) (by have := h.lt; omega)
    simpa using hne.symm
  rw [hsplit, List.dropWhile_append_of_pos hall]
  obtain ⟨c, hc⟩ : ∃ c, i - j = c + 1 := ⟨i - j - 1, by have := h.lt; omega⟩
  rw [hc, values_cons]
  simp

/-- At the first value that was there before, the orbit is classified. -/
theorem followOrbit_revisit (h : Revisit F start i j) (hi : i = k + 1)
    (hs : transform (F^[k] start) = .ok (F^[k + 1] start)) :
    followOrbit transform start (budget + 1) (values F start 1 k) (F^[k] start) k =
      ⟨.ok (revisitProbe F start i j), i⟩ := by
  subst hi
  have hpos := h.pos
  have hlt := h.lt
  have hdrop := dropWhile_values h
  rw [followOrbit, hs]
  simp only [h.eq]
  by_cases hjk : j = k
  · subst hjk
    simp [revisitProbe, revisitClassification]
  · have hne : F^[j] start ≠ F^[k] start :=
      (h.distinct j k hpos (by omega) (by omega)).symm
    have hmem : F^[j] start ∈ values F start 1 k :=
      mem_values.2 ⟨j, hpos, by omega, rfl⟩
    have hlen : k + 1 - j ≠ 1 := by omega
    simp only [Nat.add_sub_cancel] at hdrop
    simp only [hne, hmem, if_true, if_false, hdrop, values_length]
    simp [revisitProbe, revisitClassification, hlen]

end StableFormat.Orbit
