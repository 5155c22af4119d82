/-!
# Literal substitution

Replaces every occurrence of a literal in a text, from the left and without overlap.
-/

namespace StableFormat.Text

/-- The rest of a text after a literal that it starts with. -/
def dropLiteral? : List Char → List Char → Option (List Char)
  | [], rest => some rest
  | _ :: _, [] => none
  | p :: ps, c :: cs => if p = c then dropLiteral? ps cs else none

/-- What follows a literal is no longer than the text. -/
theorem length_le_of_dropLiteral? {lit text rest : List Char}
    (h : dropLiteral? lit text = some rest) : rest.length ≤ text.length := by
  induction lit generalizing text with
  | nil => simp [dropLiteral?] at h; simp [h]
  | cons p ps ih =>
    cases text with
    | nil => simp [dropLiteral?] at h
    | cons c cs =>
      simp only [dropLiteral?] at h
      split at h
      · exact Nat.le_succ_of_le (ih h)
      · simp at h

/-- A literal is dropped from where it stands. -/
theorem dropLiteral?_append (lit rest : List Char) :
    dropLiteral? lit (lit ++ rest) = some rest := by
  induction lit with
  | nil => rfl
  | cons c lit ih => rw [List.cons_append, dropLiteral?, if_pos rfl, ih]

/-- Replaces every occurrence of the literal `first :: others` by `new`, leftmost first. -/
def substitute (first : Char) (others new : List Char) : List Char → List Char
  | [] => []
  | c :: cs =>
    if c = first then
      match _h : dropLiteral? others cs with
      | some rest => new ++ substitute first others new rest
      | none => c :: substitute first others new cs
    else c :: substitute first others new cs
termination_by cs => cs.length
decreasing_by
  · have := length_le_of_dropLiteral? _h
    simp only [List.length_cons]
    omega
  · simp
  · simp

/-- Replaces every occurrence of a literal in a string; an empty literal changes nothing. -/
def replaceLiteral (old new s : String) : String :=
  match old.toList with
  | [] => s
  | first :: others => String.ofList (substitute first others new.toList s.toList)

end StableFormat.Text
