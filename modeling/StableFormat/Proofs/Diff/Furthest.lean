import Mathlib.Algebra.Order.Ring.Int
import StableFormat.Proofs.Diff.EditPath

/-!
# Proofs: how far the rounds of the search come

The search keeps one number for each diagonal `k = x - y`: the largest `x` that it has come to. Here
these numbers are defined without arrays. No path with `d` deletions and insertions comes further on
its diagonal than round `d` (`le_known`), and every point of a round is the end of such a path, with
the part of it that lies beyond the grid counted as deletions and insertions too (`known_reaches`).
So the first round that comes to the far corner comes to the corner itself and not beyond it.
-/

namespace StableFormat.ShortestScript

variable {α : Type} [DecidableEq α] {a b : List α} {c d i j : ℕ} {k : ℤ} {reach : ℤ → ℤ}

/-- Where a path ends that goes on along its diagonal as long as both sequences agree. -/
def slideEnd (a b : List α) (x y : ℤ) : ℤ :=
  x + commonPrefixLength (a.drop x.toNat) (b.drop y.toNat)

/-- The diagonals that round `d` is about. -/
def OnRound (d : ℕ) (k : ℤ) : Prop :=
  -d ≤ k ∧ k ≤ d ∧ (k + d) % 2 = 0

/-- Round `d` comes to diagonal `k` from the diagonal above it, by an insertion. -/
def FromAbove (reach : ℤ → ℤ) (d : ℕ) (k : ℤ) : Prop :=
  k = -d ∨ (k ≠ d ∧ reach (k - 1) < reach (k + 1))

instance : Decidable (FromAbove reach d k) :=
  inferInstanceAs (Decidable (_ ∨ _))

/-- Where round `d` comes to diagonal `k`. -/
def entry (reach : ℤ → ℤ) (d : ℕ) (k : ℤ) : ℤ :=
  if FromAbove reach d k then reach (k + 1) else reach (k - 1) + 1

/-- How far the rounds before round `d` have come on each diagonal. -/
def known (a b : List α) : ℕ → ℤ → ℤ
  | 0, _ => 0
  | d + 1, k => slideEnd a b (entry (known a b d) d k) (entry (known a b d) d k - k)

/-- Round `d` comes to the far corner, or beyond it. -/
def ComesToCorner (a b : List α) (d : ℕ) : Prop :=
  ∃ k, OnRound d k ∧ a.length ≤ known a b (d + 1) k ∧ b.length ≤ known a b (d + 1) k - k

/-! ## Diagonals -/

theorem OnRound.above (h : OnRound (d + 1) k) (hk : k ≠ (d + 1 : ℕ)) : OnRound d (k + 1) := by
  obtain ⟨h1, h2, h3⟩ := h
  refine ⟨?_, ?_, ?_⟩ <;> omega

theorem OnRound.below (h : OnRound (d + 1) k) (hk : k ≠ -(d + 1 : ℕ)) : OnRound d (k - 1) := by
  obtain ⟨h1, h2, h3⟩ := h
  refine ⟨?_, ?_, ?_⟩ <;> omega

theorem slideEnd_ge (x y : ℤ) : x ≤ slideEnd a b x y := by
  rw [slideEnd]
  omega

theorem entry_le_known (a b : List α) (d : ℕ) (k : ℤ) :
    entry (known a b d) d k ≤ known a b (d + 1) k := by
  rw [known]
  exact slideEnd_ge _ _

/-- A round comes to its diagonals inside the quarter plane of the grid. -/
theorem entry_nonneg (h : OnRound d k) :
    0 ≤ entry (known a b d) d k ∧ k ≤ entry (known a b d) d k := by
  induction d generalizing k with
  | zero =>
    obtain ⟨h1, h2, -⟩ := h
    obtain rfl : k = 0 := by omega
    simp [entry, FromAbove, known]
  | succ d ih =>
    rw [entry]
    split_ifs with habove
    · have hk : k ≠ (d + 1 : ℕ) := by
        rcases habove with hk | ⟨hk, -⟩
        · omega
        · exact hk
      have hprev := ih (h.above hk)
      have hle := entry_le_known a b d (k + 1)
      omega
    · have hk : k ≠ -(d + 1 : ℕ) := fun heq => habove (Or.inl heq)
      have hprev := ih (h.below hk)
      have hle := entry_le_known a b d (k - 1)
      omega

theorem known_nonneg (h : OnRound d k) :
    0 ≤ known a b (d + 1) k ∧ k ≤ known a b (d + 1) k := by
  have hentry := entry_nonneg (a := a) (b := b) h
  have hle := entry_le_known a b d k
  omega

/-- An insertion after the round before comes no further than the round does. -/
theorem known_above_le_entry (h : OnRound d (k + 1)) :
    known a b (d + 1) (k + 1) ≤ entry (known a b (d + 1)) (d + 1) k := by
  obtain ⟨h1, h2, h3⟩ := h
  rw [entry]
  split_ifs with habove
  · exact le_rfl
  · rw [FromAbove] at habove
    omega

/-- A deletion after the round before comes no further than the round does. -/
theorem known_below_le_entry (h : OnRound d (k - 1)) :
    known a b (d + 1) (k - 1) + 1 ≤ entry (known a b (d + 1)) (d + 1) k := by
  obtain ⟨h1, h2, h3⟩ := h
  rw [entry]
  split_ifs with habove
  · rcases habove with hk | ⟨-, hlt⟩ <;> omega
  · exact le_rfl

/-- The point of the round before from which a round comes to a point. -/
theorem entry_before (h : OnRound (d + 1) ((i : ℤ) - j))
    (hentry : entry (known a b (d + 1)) (d + 1) (i - j) = i) :
    (FromAbove (known a b (d + 1)) (d + 1) (i - j) ∧
        ∃ j', j = j' + 1 ∧ OnRound d ((i : ℤ) - j') ∧ known a b (d + 1) (i - j') = i) ∨
      (¬ FromAbove (known a b (d + 1)) (d + 1) (i - j) ∧
        ∃ i', i = i' + 1 ∧ OnRound d ((i' : ℤ) - j) ∧ known a b (d + 1) (i' - j) = i') := by
  rw [entry] at hentry
  split at hentry
  · next habove =>
    have hne : (i : ℤ) - j ≠ (d + 1 : ℕ) := by
      obtain ⟨h1, h2, h3⟩ := h
      rcases habove with heq | ⟨hne, -⟩ <;> omega
    have hge := (known_nonneg (a := a) (b := b) (h.above hne)).2
    obtain ⟨j', rfl⟩ : ∃ j', j = j' + 1 := Nat.exists_eq_add_one.2 (by omega)
    have hdiag : (i : ℤ) - (j' + 1 : ℕ) + 1 = i - j' := by omega
    have hbefore := h.above hne
    rw [hdiag] at hbefore hentry
    exact Or.inl ⟨habove, j', rfl, hbefore, hentry⟩
  · next hbelow =>
    have hne : (i : ℤ) - j ≠ -(d + 1 : ℕ) := fun heq => hbelow (Or.inl heq)
    have hge := (known_nonneg (a := a) (b := b) (h.below hne)).1
    obtain ⟨i', rfl⟩ : ∃ i', i = i' + 1 := Nat.exists_eq_add_one.2 (by omega)
    have hdiag : ((i' + 1 : ℕ) : ℤ) - j - 1 = i' - j := by omega
    have hbefore := h.below hne
    rw [hdiag] at hbefore hentry
    exact Or.inr ⟨hbelow, i', rfl, hbefore, by omega⟩

/-! ## Slides -/

theorem inStep_slide (i j : ℕ) :
    InStep a b i j (i + commonPrefixLength (a.drop i) (b.drop j))
      (j + commonPrefixLength (a.drop i) (b.drop j)) := by
  obtain ⟨n, hn, -, heq⟩ := inStep_commonPrefix (a.drop i) (b.drop j)
  rw [Nat.zero_add] at hn
  rw [hn]
  exact ⟨n, rfl, rfl, fun k hk => by simpa using heq k hk⟩

/-- Where a slide ends, the sequences differ or one of them ends. -/
theorem slide_maximal {x : α} (ha : a[i + commonPrefixLength (a.drop i) (b.drop j)]? = some x) :
    b[j + commonPrefixLength (a.drop i) (b.drop j)]? ≠ some x := by
  have h := commonPrefix_maximal (a.drop i) (b.drop j) x
  rw [List.getElem?_drop, List.getElem?_drop] at h
  exact h ha

/-- The entry and the end of a round's path on a diagonal, as points. -/
theorem known_eq_slide (h : OnRound d k) :
    ∃ x y : ℕ, entry (known a b d) d k = x ∧ (x : ℤ) - k = y ∧
      known a b (d + 1) k = x + commonPrefixLength (a.drop x) (b.drop y) := by
  obtain ⟨hx, hy⟩ := entry_nonneg (a := a) (b := b) h
  refine ⟨(entry (known a b d) d k).toNat, (entry (known a b d) d k - k).toNat, by omega, by omega,
    ?_⟩
  rw [known, slideEnd, Int.toNat_of_nonneg hx]

/-- A round ends at a point after a stretch of equal elements from where it came to the diagonal. -/
theorem stretch_before (h : OnRound d ((i : ℤ) - j)) (hknown : known a b (d + 1) (i - j) = i) :
    ∃ n i' j', i = i' + n ∧ j = j' + n ∧ InStep a b i' j' (i' + n) (j' + n) ∧
      OnRound d ((i' : ℤ) - j') ∧ entry (known a b d) d (i' - j') = i' := by
  obtain ⟨i', j', hi', hj', hslide⟩ := known_eq_slide (a := a) (b := b) h
  have hdiag : (i : ℤ) - j = i' - j' := by omega
  rw [hdiag] at h hi'
  exact ⟨commonPrefixLength (a.drop i') (b.drop j'), i', j', by omega, by omega,
    inStep_slide i' j', h, hi'⟩

/-! ## No path comes further -/

theorem le_known (h : Reaches a b c i j) :
    OnRound c (i - j) ∧ (i : ℤ) ≤ known a b (c + 1) (i - j) := by
  induction h with
  | corner =>
    have hround : OnRound 0 0 := ⟨by omega, by omega, by omega⟩
    exact ⟨hround, (known_nonneg hround).1⟩
  | @keep cost i j x before ha hb ih =>
    obtain ⟨hround, hle⟩ := ih
    have hdiag : ((i + 1 : ℕ) : ℤ) - (j + 1 : ℕ) = (i : ℤ) - j := by omega
    rw [hdiag]
    refine ⟨hround, ?_⟩
    -- If the round came to the point before and no further, it would have to go on from there.
    by_contra hlt
    obtain ⟨x', y', hx', hy', hknown⟩ := known_eq_slide (a := a) (b := b) hround
    have hi : i = x' + commonPrefixLength (a.drop x') (b.drop y') := by omega
    have hj : j = y' + commonPrefixLength (a.drop x') (b.drop y') := by omega
    rw [hi] at ha
    rw [hj] at hb
    exact slide_maximal ha hb
  | @drop cost i j before ha ih =>
    obtain ⟨hround, hle⟩ := ih
    have hdiag : ((i + 1 : ℕ) : ℤ) - j - 1 = (i : ℤ) - j := by omega
    rw [← hdiag] at hround hle
    have hentry := known_below_le_entry (a := a) (b := b) hround
    have hend := entry_le_known a b (cost + 1) (((i + 1 : ℕ) : ℤ) - j)
    obtain ⟨h1, h2, h3⟩ := hround
    refine ⟨⟨?_, ?_, ?_⟩, ?_⟩ <;> omega
  | @take cost i j before hb ih =>
    obtain ⟨hround, hle⟩ := ih
    have hdiag : (i : ℤ) - (j + 1 : ℕ) + 1 = (i : ℤ) - j := by omega
    rw [← hdiag] at hround hle
    have hentry := known_above_le_entry (a := a) (b := b) hround
    have hend := entry_le_known a b (cost + 1) ((i : ℤ) - (j + 1 : ℕ))
    obtain ⟨h1, h2, h3⟩ := hround
    refine ⟨⟨?_, ?_, ?_⟩, ?_⟩ <;> omega

/-! ## Every point of a round is reached -/

/-- A point that may lie beyond the grid is reached: a path leads to the part of it inside the grid,
and the rest is deletions and insertions. -/
def ReachesBeyond (a b : List α) (d i j : ℕ) : Prop :=
  ∃ cost, Reaches a b cost (min i a.length) (min j b.length) ∧
    cost + (i - a.length) + (j - b.length) = d

omit [DecidableEq α] in
theorem ReachesBeyond.drop (h : ReachesBeyond a b d i j) : ReachesBeyond a b (d + 1) (i + 1) j := by
  obtain ⟨cost, hreach, hcost⟩ := h
  by_cases hi : i < a.length
  · rw [Nat.min_eq_left hi.le] at hreach
    refine ⟨cost + 1, ?_, by omega⟩
    rw [Nat.min_eq_left hi]
    exact hreach.drop hi
  · have hmin : min (i + 1) a.length = min i a.length := by omega
    refine ⟨cost, ?_, by omega⟩
    rw [hmin]
    exact hreach

omit [DecidableEq α] in
theorem ReachesBeyond.take (h : ReachesBeyond a b d i j) : ReachesBeyond a b (d + 1) i (j + 1) := by
  obtain ⟨cost, hreach, hcost⟩ := h
  by_cases hj : j < b.length
  · rw [Nat.min_eq_left hj.le] at hreach
    refine ⟨cost + 1, ?_, by omega⟩
    rw [Nat.min_eq_left hj]
    exact hreach.take hj
  · have hmin : min (j + 1) b.length = min j b.length := by omega
    refine ⟨cost, ?_, by omega⟩
    rw [hmin]
    exact hreach

omit [DecidableEq α] in
theorem ReachesBeyond.slide {n : ℕ} (h : ReachesBeyond a b d i j)
    (hstep : InStep a b i j (i + n) (j + n)) : ReachesBeyond a b d (i + n) (j + n) := by
  induction n with
  | zero => exact h
  | succ n ih =>
    obtain ⟨hbefore, hlast⟩ := hstep.split (n := n) (by omega)
    obtain ⟨x, ha, hb⟩ := hlast.first (by omega)
    have hi := (List.getElem?_eq_some_iff.1 ha).1
    have hj := (List.getElem?_eq_some_iff.1 hb).1
    obtain ⟨cost, hreach, hcost⟩ := ih hbefore
    rw [Nat.min_eq_left hi.le, Nat.min_eq_left hj.le] at hreach
    refine ⟨cost, ?_, by omega⟩
    rw [← Nat.add_assoc, ← Nat.add_assoc, Nat.min_eq_left hi, Nat.min_eq_left hj]
    exact hreach.keep ha hb

theorem known_reaches (h : OnRound d ((i : ℤ) - j)) (hknown : known a b (d + 1) (i - j) = i) :
    ReachesBeyond a b d i j := by
  induction d generalizing i j with
  | zero =>
    obtain ⟨n, i', j', rfl, rfl, hstep, ⟨h1, h2, -⟩, hentry⟩ := stretch_before h hknown
    have hdiag : (i' : ℤ) - j' = 0 := by omega
    have hzero : entry (known a b 0) 0 0 = 0 := by simp [entry, FromAbove, known]
    rw [hdiag, hzero] at hentry
    obtain ⟨rfl, rfl⟩ : i' = 0 ∧ j' = 0 := by omega
    have hcorner : ReachesBeyond a b 0 0 0 := ⟨0, by simpa using Reaches.corner, by omega⟩
    exact hcorner.slide hstep
  | succ d ih =>
    obtain ⟨n, i', j', rfl, rfl, hstep, hround, hentry⟩ := stretch_before h hknown
    rcases entry_before hround hentry with
      ⟨-, j'', rfl, hround', hknown'⟩ | ⟨-, i'', rfl, hround', hknown'⟩
    · exact (ih hround' hknown').take.slide hstep
    · exact (ih hround' hknown').drop.slide hstep

/-! ## The far corner -/

/-- A path to the far corner brings the round of its cost there. -/
theorem comesToCorner_of_reaches (h : Reaches a b c a.length b.length) : ComesToCorner a b c := by
  obtain ⟨hround, hle⟩ := le_known h
  exact ⟨_, hround, hle, by omega⟩

/-- The first round that comes to the far corner comes to the corner itself. -/
theorem corner_exact (hfirst : ∀ c < d, ¬ ComesToCorner a b c) (h : OnRound d k)
    (ha : a.length ≤ known a b (d + 1) k) (hb : b.length ≤ known a b (d + 1) k - k) :
    k = (a.length : ℤ) - b.length ∧ known a b (d + 1) k = a.length := by
  obtain ⟨x, hx⟩ := Int.eq_ofNat_of_zero_le (known_nonneg (a := a) (b := b) h).1
  obtain ⟨y, hy⟩ := Int.eq_ofNat_of_zero_le (show 0 ≤ known a b (d + 1) k - k by omega)
  obtain rfl : k = x - y := by omega
  obtain ⟨cost, hreach, hcost⟩ := known_reaches h hx
  have hxlen : a.length ≤ x := by omega
  have hylen : b.length ≤ y := by omega
  rw [Nat.min_eq_right hxlen, Nat.min_eq_right hylen] at hreach
  have hcorner := comesToCorner_of_reaches hreach
  have hge : ¬ cost < d := fun hlt => hfirst cost hlt hcorner
  omega

end StableFormat.ShortestScript
