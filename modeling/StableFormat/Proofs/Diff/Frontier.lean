import StableFormat.Diff.ShortestScript
import StableFormat.Proofs.Checked
import StableFormat.Proofs.Diff.Furthest

/-!
# Proofs: one round of the search

The arrays of the search hold the numbers of `known`, and every access to them is in range. A round
overwrites only the diagonals of its own parity, so it reads what the round before has left.
-/

namespace StableFormat

namespace ShortestScript

variable {α : Type} [DecidableEq α] {a b : Array α} {d : ℕ} {k x : ℤ} {f f' : Frontier}
  {get : ℤ → Checked ℤ}

/-! ## Reading and writing a frontier -/

/-- The array has a place for every diagonal that a search with this bound can come to. -/
def Frontier.Sized (f : Frontier) : Prop :=
  f.reach.size = 2 * f.bound + 4

theorem Frontier.set_spec (hf : f.Sized) (hk : -(f.bound : ℤ) - 1 ≤ k ∧ k ≤ f.bound + 2) (x : ℤ) :
    ∃ f', f.set k x = .ok f' ∧ f'.bound = f.bound ∧ f'.Sized ∧ f'.get k = .ok x ∧
      ∀ l, l ≠ k → f'.get l = f.get l := by
  have hslot : 0 ≤ f.slot k := by
    rw [Frontier.slot]
    omega
  have hlt : (f.slot k).toNat < f.reach.size := by
    rw [Frontier.Sized] at hf
    rw [Frontier.slot, hf]
    omega
  have hwrite : Checked.write f.reach (f.slot k) x =
      .ok (f.reach.setIfInBounds (f.slot k).toNat x) := if_pos ⟨hslot, hlt⟩
  refine ⟨⟨f.bound, f.reach.setIfInBounds (f.slot k).toNat x⟩, ?_, rfl, ?_, ?_, ?_⟩
  · rw [Frontier.set, hwrite]
    rfl
  · rw [Frontier.Sized, Array.size_setIfInBounds]
    exact hf
  · have hself := Array.getElem?_setIfInBounds_self_of_lt (a := x) hlt
    exact Checked.read_eq_ok hslot hself
  · intro l hl
    simp only [Frontier.get, Checked.read]
    by_cases hl0 : 0 ≤ f.slot l
    · have hne : (f.slot k).toNat ≠ (f.slot l).toNat := by
        rw [Frontier.slot] at hslot hl0 ⊢
        rw [Frontier.slot]
        omega
      have hother : (f.reach.setIfInBounds (f.slot k).toNat x)[(f.slot l).toNat]? =
          f.reach[(f.slot l).toNat]? := Array.getElem?_setIfInBounds_ne hne
      rw [if_pos hl0, ← hother]
      exact if_pos hl0
    · rw [if_neg hl0]
      exact if_neg hl0

/-- What a reader of a frontier or of a window must give before round `d`: the numbers of the round
before, and zero for the diagonal from which round zero comes to the corner. -/
def Knows (a b : Array α) (d : ℕ) (get : ℤ → Checked ℤ) : Prop :=
  ∀ k, (d = 0 ∧ k = 1) ∨ (∃ c, d = c + 1 ∧ OnRound c k) →
    get k = .ok (known a.toList b.toList d k)

theorem Knows.above (h : Knows a b d get) (hk : OnRound d k) (hne : k = -d ∨ k ≠ d) :
    get (k + 1) = .ok (known a.toList b.toList d (k + 1)) := by
  obtain ⟨h1, h2, h3⟩ := hk
  cases d with
  | zero => exact h _ (Or.inl ⟨rfl, by omega⟩)
  | succ d => exact h _ (Or.inr ⟨d, rfl, by omega, by omega, by omega⟩)

theorem Knows.below (h : Knows a b d get) (hk : OnRound d k) (hne : k ≠ -d) :
    get (k - 1) = .ok (known a.toList b.toList d (k - 1)) := by
  obtain ⟨h1, h2, h3⟩ := hk
  cases d with
  | zero => omega
  | succ d => exact h _ (Or.inr ⟨d, rfl, by omega, by omega, by omega⟩)

theorem comesFromAbove_spec (h : Knows a b d get) (hk : OnRound d k) :
    comesFromAbove get d k = .ok (decide (FromAbove (known a.toList b.toList d) d k)) := by
  rw [comesFromAbove]
  by_cases hlow : k = -d
  · simp [hlow, FromAbove]
  · rw [if_neg hlow]
    by_cases hhigh : k = d
    · subst hhigh
      rw [if_pos rfl]
      simp [FromAbove, hlow]
    · rw [if_neg hhigh, h.below hk hlow, h.above hk (Or.inr hhigh)]
      simp [FromAbove, hlow, hhigh, pure, Except.pure]

/-! ## Slides -/

theorem slide_spec (i j : ℕ) :
    slide a b i j =
      .ok ((i : ℤ) + commonPrefixLength (a.toList.drop i) (b.toList.drop j),
        (j : ℤ) + commonPrefixLength (a.toList.drop i) (b.toList.drop j)) := by
  generalize hn : a.size - i = n
  induction n generalizing i j with
  | zero =>
    have hdrop : a.toList.drop i = [] := List.drop_eq_nil_of_le (by simp; omega)
    rw [slide, dif_neg (by omega), hdrop]
    simp [commonPrefixLength]
  | succ n ih =>
    rw [slide]
    have hi : i < a.toList.length := by simp; omega
    by_cases hj : j < b.toList.length
    · have hread : (i : ℤ) < a.size ∧ (j : ℤ) < b.size := by
        rw [Array.length_toList] at hi hj
        omega
      have ha : Checked.read a (i : ℤ) = .ok a.toList[i] := Checked.read_nat (by simp)
      have hb : Checked.read b (j : ℤ) = .ok b.toList[j] := Checked.read_nat (by simp)
      rw [dif_pos hread, ha, hb, List.drop_eq_getElem_cons hi, List.drop_eq_getElem_cons hj,
        commonPrefixLength]
      simp only
      split
      · have hnext := ih (i + 1) (j + 1) (by omega)
        simp only [Nat.cast_add, Nat.cast_one] at hnext
        rw [hnext]
        simp only [Nat.cast_add, Nat.cast_one, Except.ok.injEq, Prod.mk.injEq]
        omega
      · simp
    · have hdrop : b.toList.drop j = [] := List.drop_eq_nil_of_le (by omega)
      rw [dif_neg (by rw [Array.length_toList] at hj; omega), hdrop]
      cases a.toList.drop i <;> simp [commonPrefixLength]

theorem furthest_spec (h : Knows a b d f.get) (hk : OnRound d k) :
    furthest a b f d k =
      .ok (known a.toList b.toList (d + 1) k, known a.toList b.toList (d + 1) k - k) := by
  obtain ⟨i, j, hi, hj, hknown⟩ := known_eq_slide (a := a.toList) (b := b.toList) hk
  have hslide : slide a b (entry (known a.toList b.toList d) d k)
      (entry (known a.toList b.toList d) d k - k) =
        .ok (known a.toList b.toList (d + 1) k, known a.toList b.toList (d + 1) k - k) := by
    have hy : (i : ℤ) + commonPrefixLength (a.toList.drop i) (b.toList.drop j) - k =
        j + commonPrefixLength (a.toList.drop i) (b.toList.drop j) := by omega
    rw [hi, hj, hknown, slide_spec, hy]
  rw [furthest, comesFromAbove_spec h hk, Checked.ok_bind]
  by_cases habove : FromAbove (known a.toList b.toList d) d k
  · rw [entry, if_pos habove] at hslide
    rw [decide_eq_true habove, if_pos rfl, h.above hk (habove.imp_right fun hne => hne.1),
      Checked.ok_bind]
    exact hslide
  · rw [entry, if_neg habove] at hslide
    have hlow : k ≠ -d := fun heq => habove (Or.inl heq)
    rw [decide_eq_false habove, if_neg (by simp), h.below hk hlow, Checked.map_ok, Checked.ok_bind]
    exact hslide

/-! ## Rounds -/

/-- Round `d` has dealt with its diagonals below `next`. -/
structure InRound (a b : Array α) (d : ℕ) (next : ℤ) (f : Frontier) : Prop where
  sized : f.Sized
  inBound : d ≤ f.bound
  knows : Knows a b d f.get
  done : ∀ k, OnRound d k → k < next → f.get k = .ok (known a.toList b.toList (d + 1) k)

/-- Dealing with one diagonal. -/
theorem InRound.step (h : InRound a b d k f) (hk : OnRound d k) :
    ∃ f', f.set k (known a.toList b.toList (d + 1) k) = .ok f' ∧ f'.bound = f.bound ∧
      InRound a b d (k + 2) f' := by
  have hrange : -(f.bound : ℤ) - 1 ≤ k ∧ k ≤ f.bound + 2 := by
    have hbound := h.inBound
    obtain ⟨h1, h2, -⟩ := hk
    omega
  obtain ⟨f', hset, hbound, hsized, hself, hother⟩ :=
    Frontier.set_spec h.sized hrange (known a.toList b.toList (d + 1) k)
  refine ⟨f', hset, hbound, hsized, hbound ▸ h.inBound, ?_, ?_⟩
  · intro l hl
    have hne : l ≠ k := by
      -- The diagonals of the round before have the other parity.
      obtain ⟨h1, h2, h3⟩ := hk
      rcases hl with ⟨rfl, rfl⟩ | ⟨c, rfl, -, -, hc⟩ <;> omega
    rw [hother l hne]
    exact h.knows l hl
  · intro l hl hlt
    by_cases hlk : l = k
    · rw [hlk, hself]
    · rw [hother l hlk]
      refine h.done l hl ?_
      obtain ⟨-, -, h3⟩ := hk
      obtain ⟨-, -, h3'⟩ := hl
      omega

/-- A round that also says at which point it has reached the far corner. -/
def roundTo (a b : Array α) (d : ℕ) : (count : ℕ) → Frontier → Checked (Frontier × Option (ℤ × ℤ))
  | 0, f => .ok (f, none)
  | count + 1, f => do
    let k : ℤ := d - 2 * count
    let (x, y) ← furthest a b f d k
    let f ← f.set k x
    if a.size ≤ x ∧ y ≥ b.size then return (f, some (x, y)) else roundTo a b d count f

theorem round_eq (a b : Array α) (d count : ℕ) (f : Frontier) :
    round a b d count f = (fun (f, stop) => (f, stop.isSome)) <$> roundTo a b d count f := by
  induction count generalizing f with
  | zero => rfl
  | succ count ih =>
    rw [round, roundTo]
    cases furthest a b f d (d - 2 * count) with
    | error e => rfl
    | ok point =>
      simp only [Checked.ok_bind]
      cases f.set (d - 2 * count) point.1 with
      | error e => rfl
      | ok f' =>
        simp only [Checked.ok_bind]
        split
        · rfl
        · exact ih f'

/-- What a round gives, when its last `count` diagonals are left. -/
theorem roundTo_spec (count : ℕ) (hcount : count ≤ d + 1)
    (h : InRound a b d ((d : ℤ) + 2 - 2 * count) f) :
    ∃ f' stop, roundTo a b d count f = .ok (f', stop) ∧ f'.bound = f.bound ∧
      (∀ x y, stop = some (x, y) → ∃ k, OnRound d k ∧
        known a.toList b.toList (d + 1) k = x ∧ x - k = y ∧
        (a.toList.length : ℤ) ≤ x ∧ (b.toList.length : ℤ) ≤ y) ∧
      (stop = none → InRound a b d ((d : ℤ) + 2) f' ∧
        ∀ k, OnRound d k → (d : ℤ) + 2 - 2 * count ≤ k →
          ¬ ((a.toList.length : ℤ) ≤ known a.toList b.toList (d + 1) k ∧
            (b.toList.length : ℤ) ≤ known a.toList b.toList (d + 1) k - k)) := by
  induction count generalizing f with
  | zero =>
    refine ⟨f, none, rfl, rfl, by simp, fun _ => ⟨by simpa using h, ?_⟩⟩
    rintro k ⟨h1, h2, h3⟩ hge
    omega
  | succ count ih =>
    have hdiag : (d : ℤ) + 2 - 2 * ((count + 1 : ℕ) : ℤ) = d - 2 * count := by omega
    rw [hdiag] at h ⊢
    have hk : OnRound d ((d : ℤ) - 2 * count) := ⟨by omega, by omega, by omega⟩
    obtain ⟨f', hset, hbound, hstep⟩ := h.step hk
    rw [roundTo]
    simp only [furthest_spec h.knows hk, Checked.ok_bind, hset]
    split
    · next hcorner =>
      refine ⟨f', some _, rfl, hbound, ?_, by simp⟩
      rintro x y heq
      obtain ⟨rfl, rfl⟩ := Prod.mk.inj (Option.some.inj heq)
      exact ⟨_, hk, rfl, rfl, by simpa using hcorner⟩
    · next hcorner =>
      have hnext : (d : ℤ) - 2 * count + 2 = d + 2 - 2 * count := by omega
      rw [hnext] at hstep
      obtain ⟨f'', stop, hround, hbound', hyes, hno⟩ := ih (by omega) hstep
      refine ⟨f'', stop, hround, hbound'.trans hbound, hyes, fun hstop => ?_⟩
      obtain ⟨hlast, hnone⟩ := hno hstop
      refine ⟨hlast, fun l hl hge => ?_⟩
      by_cases hlk : l = (d : ℤ) - 2 * count
      · subst hlk
        simpa using hcorner
      · refine hnone l hl ?_
        obtain ⟨-, -, h3⟩ := hl
        omega

end ShortestScript

end StableFormat
