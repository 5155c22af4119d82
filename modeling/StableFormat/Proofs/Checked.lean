import Mathlib.Algebra.Group.Nat.Defs
import StableFormat.Checked

/-!
# Proofs: computations that can fail

A computation in several parts has a result if all parts have, and fails where the first of them
does. A number that is checked is the number itself, if there is room for it.
-/

namespace StableFormat

section

variable {ε α β : Type} {x : Except ε α} {f : α → Except ε β}

theorem bind_eq_ok {b : β} : (x >>= f) = .ok b ↔ ∃ a, x = .ok a ∧ f a = .ok b := by
  cases x with
  | error e => simp [bind, Except.bind]
  | ok a => simp [bind, Except.bind]

theorem bind_eq_error {e : ε} :
    (x >>= f) = .error e ↔ x = .error e ∨ ∃ a, x = .ok a ∧ f a = .error e := by
  cases x with
  | error e => simp [bind, Except.bind]
  | ok a => simp [bind, Except.bind]

theorem map_eq_ok {g : α → β} {b : β} : g <$> x = .ok b ↔ ∃ a, x = .ok a ∧ g a = b := by
  cases x with
  | error e => simp [Functor.map, Except.map]
  | ok a => simp [Functor.map, Except.map]

theorem mapError_eq_ok {ε' : Type} {g : ε → ε'} {a : α} : x.mapError g = .ok a ↔ x = .ok a := by
  cases x with
  | error e => exact iff_of_false (by nofun) (by nofun)
  | ok b => exact (Except.ok.injEq b a).to_iff.trans (Except.ok.injEq b a).to_iff.symm

theorem mapError_eq_error {ε' : Type} {g : ε → ε'} {e' : ε'} :
    x.mapError g = .error e' ↔ ∃ e, x = .error e ∧ g e = e' := by
  cases x with
  | error e =>
    constructor
    · intro h
      exact ⟨e, rfl, Except.error.inj h⟩
    · rintro ⟨_, ⟨⟩, rfl⟩
      rfl
  | ok a => exact iff_of_false (by nofun) fun ⟨_, h, _⟩ => by cases h

theorem ite_eq_ok {p : Prop} [Decidable p] {a b : α} {e : ε} :
    (if p then Except.ok a else .error e) = .ok b ↔ p ∧ a = b := by
  split
  · next h => rw [Except.ok.injEq, and_iff_right h]
  · next h => exact iff_of_false (by nofun) fun hboth => h hboth.1

theorem length_of_mapM_eq_ok {as : List α} {bs : List β} (h : as.mapM f = .ok bs) :
    bs.length = as.length := by
  induction as generalizing bs with
  | nil =>
    cases h
    rfl
  | cons a as ih =>
    rw [List.mapM_cons] at h
    obtain ⟨b, -, hrest⟩ := bind_eq_ok.1 h
    obtain ⟨bs, hbs, ⟨⟩⟩ := bind_eq_ok.1 hrest
    rw [List.length_cons, List.length_cons, ih hbs]

end

namespace Checked

variable {α β : Type} {a b n bytes : Nat}

@[simp]
theorem ok_bind (x : α) (f : α → Checked β) : (Except.ok x >>= f) = f x := rfl

@[simp]
theorem map_ok (x : α) (f : α → β) : f <$> (Except.ok x : Checked α) = .ok (f x) := rfl

theorem read_eq_ok {xs : Array α} {i : Int} {x : α} (hi : 0 ≤ i) (h : xs[i.toNat]? = some x) :
    read xs i = .ok x := by
  simp [read, hi, h]

theorem read_nat {xs : Array α} {i : Nat} {x : α} (h : xs[i]? = some x) : read xs i = .ok x :=
  read_eq_ok (by omega) (by simpa using h)

theorem word_size : UInt64.size = 2 ^ 64 := rfl

theorem textLimit_eq : textLimit = 2 ^ 63 := rfl

theorem add_eq_ok : add a b = .ok n ↔ a + b = n ∧ n < 2 ^ 64 := by
  rw [add, word_size, ite_eq_ok, and_comm]
  exact and_congr_right fun heq => by rw [heq]

theorem mul_eq_ok : mul a b = .ok n ↔ a * b = n ∧ n < 2 ^ 64 := by
  rw [mul, word_size, ite_eq_ok, and_comm]
  exact and_congr_right fun heq => by rw [heq]

theorem reserve_eq_ok : reserve bytes = .ok () ↔ bytes < 2 ^ 63 := by
  rw [reserve, textLimit_eq, ite_eq_ok, and_iff_left rfl]

end Checked

end StableFormat
