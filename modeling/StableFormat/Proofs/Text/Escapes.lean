import Mathlib.Data.List.Basic
import StableFormat.Text.Substitution
import StableFormat.Toml.Quoted

/-!
# Proofs: percent escapes

Special characters are replaced one after the other by a percent sign and two hexadecimal digits. If
the percent sign is the first of them, this is the same as to escape all of them at once, and a
reader who takes each escape for its character finds the text again.
-/

namespace StableFormat.Text

/-- A hexadecimal digit, as a capital. -/
def hexDigit (n : ℕ) : Char :=
  (Nat.digitChar n).toUpper

/-- The escape of a character. -/
def escapeCode (c : Char) : List Char :=
  ['%', hexDigit (c.toNat / 16), hexDigit (c.toNat % 16)]

/-- A text with its special characters escaped. -/
def escape (special cs : List Char) : List Char :=
  cs.flatMap fun c => if c ∈ special then escapeCode c else [c]

/-- A text with its escapes undone in one pass. A percent sign without two digits is left alone. -/
def unescape : List Char → List Char
  | '%' :: x :: y :: rest =>
    match Toml.hexDigit? x, Toml.hexDigit? y with
    | some high, some low => Char.ofNat (high * 16 + low) :: unescape rest
    | _, _ => '%' :: unescape (x :: y :: rest)
  | c :: rest => c :: unescape rest
  | [] => []

variable {c : Char} {special : List Char}

/-! ## One substitution after the other -/

theorem substitute_char (c : Char) (new cs : List Char) :
    substitute c [] new cs = cs.flatMap fun d => if d = c then new else [d] := by
  induction cs with
  | nil => rw [substitute, List.flatMap_nil]
  | cons d cs ih =>
    rw [substitute, List.flatMap_cons]
    by_cases hd : d = c
    · rw [if_pos hd, if_pos hd]
      show new ++ substitute c [] new cs = _
      rw [ih]
    · rw [if_neg hd, if_neg hd, ih]
      rfl

/-- To escape one more character in an escaped text is to escape it with the others, if it does not
stand in their escapes. -/
theorem substitute_escape (hcode : c ∉ special.flatMap escapeCode) (cs : List Char) :
    substitute c [] (escapeCode c) (escape special cs) = escape (c :: special) cs := by
  rw [substitute_char, escape, List.flatMap_assoc]
  refine List.flatMap_congr fun d _ => ?_
  by_cases hd : d ∈ special
  · have hkeep : ∀ x ∈ escapeCode d, (if x = c then escapeCode c else [x]) = [x] := by
      intro x hx
      have hne : x ≠ c := fun heq => hcode (List.mem_flatMap.2 ⟨d, hd, heq ▸ hx⟩)
      rw [if_neg hne]
    rw [if_pos hd, if_pos (List.mem_cons_of_mem c hd), List.flatMap_congr hkeep,
      List.flatMap_singleton']
  · rw [if_neg hd, List.flatMap_singleton]
    by_cases hdc : d = c
    · rw [if_pos hdc, if_pos (List.mem_cons.2 (Or.inl hdc)), hdc]
    · have hnot : d ∉ c :: special := List.not_mem_cons_of_ne_of_not_mem hdc hd
      rw [if_neg hdc, if_neg hnot]

theorem replaceLiteral_escape {old new s : String} (hold : old.toList = [c])
    (hnew : new.toList = escapeCode c) (hcode : c ∉ special.flatMap escapeCode) {cs : List Char}
    (hs : s.toList = escape special cs) :
    (replaceLiteral old new s).toList = escape (c :: special) cs := by
  rw [replaceLiteral, hold, hnew, hs]
  exact String.toList_ofList.trans (substitute_escape hcode cs)

/-! ## What is escaped -/

/-- A special character does not stand in an escaped text, unless it stands in an escape. -/
theorem not_mem_escape (hc : c ∈ special) (hcode : c ∉ special.flatMap escapeCode)
    (cs : List Char) : c ∉ escape special cs := by
  intro hmem
  obtain ⟨d, -, hd⟩ := List.mem_flatMap.1 hmem
  by_cases hspecial : d ∈ special
  · rw [if_pos hspecial] at hd
    exact hcode (List.mem_flatMap.2 ⟨d, hspecial, hd⟩)
  · rw [if_neg hspecial, List.mem_singleton] at hd
    exact hspecial (hd ▸ hc)

theorem hexDigit?_hexDigit : ∀ n < 16, Toml.hexDigit? (hexDigit n) = some n := by
  decide

theorem unescape_escapeCode (hc : c.toNat < 256) (rest : List Char) :
    unescape (escapeCode c ++ rest) = c :: unescape rest := by
  have hhigh := hexDigit?_hexDigit (c.toNat / 16) (by omega)
  have hlow := hexDigit?_hexDigit (c.toNat % 16) (by omega)
  rw [escapeCode, List.cons_append, List.cons_append, List.cons_append, List.nil_append, unescape,
    hhigh, hlow]
  show Char.ofNat (c.toNat / 16 * 16 + c.toNat % 16) :: unescape rest = c :: unescape rest
  rw [Nat.div_add_mod', Char.ofNat_toNat]

theorem unescape_cons (hc : c ≠ '%') (rest : List Char) :
    unescape (c :: rest) = c :: unescape rest := by
  rw [unescape]
  rintro _ _ _ rfl
  exact absurd rfl hc

/-- Escapes that are undone give the text back. -/
theorem unescape_escape (hpercent : '%' ∈ special) (hbyte : special.all (·.toNat < 256))
    (cs : List Char) : unescape (escape special cs) = cs := by
  induction cs with
  | nil => rfl
  | cons c cs ih =>
    rw [escape, List.flatMap_cons, ← escape]
    by_cases hc : c ∈ special
    · have hlow := of_decide_eq_true (List.all_eq_true.1 hbyte c hc)
      rw [if_pos hc, unescape_escapeCode hlow, ih]
    · have hne : c ≠ '%' := fun heq => hc (heq ▸ hpercent)
      rw [if_neg hc, List.singleton_append, unescape_cons hne, ih]

end StableFormat.Text
