import Mathlib.Data.List.Basic

/-!
# Proofs: numbers in a text

A number is written in decimal digits, and different numbers are written differently. Where one is
put at the end of a text, nothing separates it from what stands in front; that no digit can be taken
for the mark further in front is enough to tell where the text was put together.
-/

namespace StableFormat.Text

variable {α : Type} [DecidableEq α] {mark : α} {front front' label tail tail' : List α}

theorem toList_number (number : Nat) : (toString number).toList = Nat.toDigits 10 number := by
  rw [Nat.toString_eq_ofList_toDigits, String.toList_ofList]

theorem isDigit_of_mem_number {number : Nat} {c : Char} (h : c ∈ (toString number).toList) :
    c.isDigit = true := by
  rw [toList_number] at h
  exact Nat.isDigit_of_mem_toDigits (by decide) (by decide) h

theorem not_mem_number {c : Char} (hc : c.isDigit = false) (number : Nat) :
    c ∉ (toString number).toList := by
  intro hmem
  rw [isDigit_of_mem_number hmem] at hc
  cases hc

theorem not_mem_toDigits {c : Char} (hc : c.isDigit = false) (number : Nat) :
    c ∉ Nat.toDigits 10 number := by
  rw [← toList_number]
  exact not_mem_number hc number

theorem number_injective {m n : Nat} (h : toString m = toString n) : m = n := by
  have hdigits : Nat.toDigits 10 m = Nat.toDigits 10 n := by
    rw [← toList_number, ← toList_number, h]
  calc
    m = Nat.ofDigitChars 10 (Nat.toDigits 10 m) 0 := Nat.ofDigitChars_ten_toDigits.symm
    _ = Nat.ofDigitChars 10 (Nat.toDigits 10 n) 0 := by rw [hdigits]
    _ = n := Nat.ofDigitChars_ten_toDigits

/-! ## A mark, a label and a number -/

/-- If one such text is the end of another, then it is all of it: the other one has no more marks, and
a mark at its beginning. -/
theorem eq_nil_of_append_mark (htail : mark ∉ tail)
    (h : mark :: (label ++ tail) = front ++ mark :: (label ++ tail')) : front = [] := by
  cases front with
  | nil => rfl
  | cons first front =>
    have hrest : label ++ tail = front ++ mark :: (label ++ tail') := (List.cons.inj h).2
    have hcount := congrArg (List.count mark) hrest
    have hnone : tail.count mark = 0 := List.count_eq_zero.2 htail
    rw [List.count_append, List.count_append, List.count_cons_self, List.count_append, hnone]
      at hcount
    omega

theorem append_mark_inj (htail : mark ∉ tail) (htail' : mark ∉ tail')
    (h : front ++ mark :: (label ++ tail) = front' ++ mark :: (label ++ tail')) :
    front = front' ∧ tail = tail' := by
  have hfront : front = front' := by
    rcases List.append_eq_append_iff.1 h with ⟨between, rfl, hbehind⟩ | ⟨between, rfl, hbehind⟩
    · rw [eq_nil_of_append_mark htail hbehind, List.append_nil]
    · rw [eq_nil_of_append_mark htail' hbehind, List.append_nil]
  subst hfront
  have hbehind := List.append_cancel_left h
  exact ⟨rfl, List.append_cancel_left (List.cons.inj hbehind).2⟩

/-- A name that is put together from a path, a label and a number tells which path and which number
these were. The label may have dots in it, and may end with digits. -/
theorem numbered_inj {path path' label : String} {m n : Nat}
    (h : path ++ "." ++ label ++ toString m = path' ++ "." ++ label ++ toString n) :
    path = path' ∧ m = n := by
  have hlists := congrArg String.toList h
  simp only [String.toList_append, List.append_assoc] at hlists
  have hdot : (".").toList = ['.'] := rfl
  rw [hdot, List.singleton_append, List.singleton_append] at hlists
  obtain ⟨hpath, hnumber⟩ :=
    append_mark_inj (not_mem_number rfl m) (not_mem_number rfl n) hlists
  exact ⟨String.toList_injective hpath, number_injective (String.toList_injective hnumber)⟩

end StableFormat.Text
