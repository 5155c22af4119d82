import Mathlib.Data.List.DropRight
import StableFormat.Proofs.Checked
import StableFormat.Proofs.Text.Lines

/-!
# Proofs: texts that are changed line by line

One function is applied to each line of a text, the pieces between the `\n`. Statements about such a
text are proved by induction on its lines. If the function leaves alone where a line ends, the text
with its lines changed ends where it did before, too.
-/

namespace StableFormat.Text

variable {sep c : Char} {cs line rest : List Char} {p q : Char → Bool}
  {g h : List Char → List Char}

/-! ## One line after the other -/

/-- The text with a function applied to each of its lines. -/
def mapLines (g : List Char → List Char) (cs : List Char) : List Char :=
  joinWithChar '\n' ((splitAtChar '\n' cs).map g)

/-- Lines are taken off a text one by one, until there is only one left. -/
@[elab_as_elim]
theorem line_induction {motive : List Char → Prop} (cs : List Char)
    (last : ∀ line, '\n' ∉ line → motive line)
    (newline : ∀ line rest, '\n' ∉ line → motive rest → motive (line ++ '\n' :: rest)) :
    motive cs := by
  -- The characters before `cs` on its first line are carried along.
  suffices hline : ∀ line, '\n' ∉ line → motive (line ++ cs) from hline [] List.not_mem_nil
  induction cs with
  | nil =>
    intro line hline
    rw [List.append_nil]
    exact last line hline
  | cons c cs ih =>
    intro line hline
    by_cases hc : c = '\n'
    · subst hc
      exact newline line cs hline (ih [] List.not_mem_nil)
    · rw [List.append_cons]
      exact ih (line ++ [c]) (by simp [hline, Ne.symm hc])

theorem splitAtChar_of_notMem (hsep : sep ∉ line) : splitAtChar sep line = [line] := by
  have hsplit := splitAtChar_append hsep (show splitAtChar sep [] = [[]] from rfl)
  rwa [List.append_nil] at hsplit

theorem mapLines_line (hline : '\n' ∉ line) : mapLines g line = g line := by
  rw [mapLines, splitAtChar_of_notMem hline]
  rfl

theorem mapLines_newline (hline : '\n' ∉ line) (rest : List Char) :
    mapLines g (line ++ '\n' :: rest) = g line ++ '\n' :: mapLines g rest := by
  have hne : (splitAtChar '\n' rest).map g ≠ [] := by simp [splitAtChar_ne_nil]
  rw [mapLines, splitAtChar_append_sep, splitAtChar_of_notMem hline, List.singleton_append,
    List.map_cons, joinWithChar_cons hne, mapLines]

theorem mapLines_append_newline (cs rest : List Char) :
    mapLines g (cs ++ '\n' :: rest) = mapLines g cs ++ '\n' :: mapLines g rest := by
  induction cs using line_induction with
  | last line hline => rw [mapLines_newline hline, mapLines_line hline]
  | newline line before hline ih =>
    rw [List.append_assoc, List.cons_append, mapLines_newline hline, mapLines_newline hline, ih,
      List.append_assoc, List.cons_append]

theorem mapLines_congr (hgh : ∀ line, '\n' ∉ line → g line = h line) (cs : List Char) :
    mapLines g cs = mapLines h cs := by
  induction cs using line_induction with
  | last line hline => rw [mapLines_line hline, mapLines_line hline, hgh line hline]
  | newline line rest hline ih =>
    rw [mapLines_newline hline, mapLines_newline hline, hgh line hline, ih]

/-- Two changes line by line are one, if the first leaves lines whole. -/
theorem mapLines_mapLines (hh : ∀ line, '\n' ∈ h line → '\n' ∈ line) (cs : List Char) :
    mapLines g (mapLines h cs) = mapLines (g ∘ h) cs := by
  induction cs using line_induction with
  | last line hline =>
    rw [mapLines_line hline, mapLines_line (mt (hh line) hline), mapLines_line hline]
    rfl
  | newline line rest hline ih =>
    rw [mapLines_newline hline, mapLines_newline (mt (hh line) hline), ih, mapLines_newline hline]
    rfl

theorem mem_mapLines_iff (hg : ∀ line, c ∈ g line ↔ c ∈ line) : c ∈ mapLines g cs ↔ c ∈ cs := by
  induction cs using line_induction with
  | last line hline => rw [mapLines_line hline, hg]
  | newline line rest hline ih =>
    rw [mapLines_newline hline, List.mem_append, List.mem_append, List.mem_cons, List.mem_cons, hg,
      ih]

/-- The lines of the text that comes out are the lines with the function applied to them. -/
theorem splitAtChar_mapLines (hg : ∀ line, '\n' ∈ g line → '\n' ∈ line) (cs : List Char) :
    splitAtChar '\n' (mapLines g cs) = (splitAtChar '\n' cs).map g := by
  refine splitAtChar_joinWithChar ?_ ?_
  · rw [Ne, List.map_eq_nil_iff]
    exact splitAtChar_ne_nil '\n' cs
  · intro piece hpiece hmem
    obtain ⟨line, hline, rfl⟩ := List.mem_map.1 hpiece
    exact not_mem_of_splitAtChar hline (hg line hmem)

/-! ## Changes that can fail -/

section

variable {ε : Type} {f : List Char → Except ε (List Char)} {out : List Char}

/-- The text with a function applied to each of its lines, one after the other, until it fails. -/
def mapLinesM (f : List Char → Except ε (List Char)) (cs : List Char) : Except ε (List Char) :=
  joinWithChar '\n' <$> (splitAtChar '\n' cs).mapM f

theorem mapLinesM_line (hline : '\n' ∉ line) : mapLinesM f line = f line := by
  rw [mapLinesM, splitAtChar_of_notMem hline, List.mapM_cons, List.mapM_nil]
  cases f line with
  | error e => rfl
  | ok out => rfl

theorem mapLinesM_newline (hline : '\n' ∉ line) (rest : List Char) :
    mapLinesM f (line ++ '\n' :: rest) = do
      let first ← f line
      let others ← mapLinesM f rest
      return first ++ '\n' :: others := by
  rw [mapLinesM, splitAtChar_append_sep, splitAtChar_of_notMem hline, List.singleton_append,
    List.mapM_cons, mapLinesM]
  cases f line with
  | error e => rfl
  | ok first =>
    cases hothers : (splitAtChar '\n' rest).mapM f with
    | error e => rfl
    | ok others =>
      have hlength := length_of_mapM_eq_ok hothers
      have hne : others ≠ [] := by
        rintro rfl
        exact splitAtChar_ne_nil '\n' rest (List.eq_nil_of_length_eq_zero hlength.symm)
      exact congrArg Except.ok (joinWithChar_cons hne first)

/-- A change that works on some lines only works on the texts that consist of such lines. -/
theorem mapLinesM_eq_ok {P : List Char → Prop}
    (hf : ∀ line out, f line = .ok out ↔ P line ∧ out = g line) :
    mapLinesM f cs = .ok out ↔ (∀ line ∈ splitAtChar '\n' cs, P line) ∧ out = mapLines g cs := by
  induction cs using line_induction generalizing out with
  | last line hline =>
    rw [mapLinesM_line hline, hf, splitAtChar_of_notMem hline, mapLines_line hline]
    simp
  | newline line rest hline ih =>
    rw [mapLinesM_newline hline, mapLines_newline hline, splitAtChar_append_sep,
      splitAtChar_of_notMem hline, List.singleton_append, List.forall_mem_cons]
    simp only [bind_eq_ok, hf, ih]
    constructor
    · rintro ⟨-, ⟨hfirst, rfl⟩, -, ⟨hothers, rfl⟩, ⟨⟩⟩
      exact ⟨⟨hfirst, hothers⟩, rfl⟩
    · rintro ⟨⟨hfirst, hothers⟩, rfl⟩
      exact ⟨_, ⟨hfirst, rfl⟩, _, ⟨hothers, rfl⟩, rfl⟩

end

/-! ## The number of lines -/

theorem terminatedLines_of_notMem (hline : '\n' ∉ line) (hne : line ≠ []) :
    terminatedLines line = [line] := by
  induction line with
  | nil => exact absurd rfl hne
  | cons c line ih =>
    have hc : c ≠ '\n' := Ne.symm (List.ne_of_not_mem_cons hline)
    rw [terminatedLines_cons hc]
    by_cases hnil : line = []
    · rw [hnil]
      rfl
    · rw [ih (List.not_mem_of_not_mem_cons hline) hnil]
      rfl

/-- A function that empties no line changes the number of lines neither by itself nor at the end of
the text, where an empty line does not count. -/
theorem length_terminatedLines_mapLines (hg : ∀ line, '\n' ∈ g line → '\n' ∈ line)
    (hnil : ∀ line, g line = [] ↔ line = []) (cs : List Char) :
    (terminatedLines (mapLines g cs)).length = (terminatedLines cs).length := by
  induction cs using line_induction with
  | last line hline =>
    rw [mapLines_line hline]
    by_cases hempty : line = []
    · rw [(hnil line).2 hempty, hempty]
    · rw [terminatedLines_of_notMem hline hempty,
        terminatedLines_of_notMem (mt (hg line) hline) (mt (hnil line).1 hempty)]
      rfl
  | newline line rest hline ih =>
    rw [mapLines_newline hline, terminatedLines_append_newline (mt (hg line) hline),
      terminatedLines_append_newline hline, List.length_cons, List.length_cons, ih]

/-! ## The end of a text -/

theorem dropTrailing_cons (p : Char → Bool) (c : Char) (cs : List Char) :
    dropTrailing p (c :: cs) =
      if p c && (dropTrailing p cs).isEmpty then [] else c :: dropTrailing p cs := rfl

theorem dropTrailing_eq_rdropWhile (p : Char → Bool) (cs : List Char) :
    dropTrailing p cs = cs.rdropWhile p := by
  induction cs with
  | nil => rfl
  | cons c cs ih =>
    rw [dropTrailing_cons, ih, List.rdropWhile, List.rdropWhile, List.reverse_cons,
      List.dropWhile_append]
    cases hrest : cs.reverse.dropWhile p with
    | nil => cases hc : p c <;> simp [hc]
    | cons d ds => simp

theorem dropTrailing_eq_nil_iff : dropTrailing p cs = [] ↔ ∀ c ∈ cs, p c = true := by
  rw [dropTrailing_eq_rdropWhile, List.rdropWhile_eq_nil_iff]

theorem dropTrailing_isPrefix (p : Char → Bool) (cs : List Char) : dropTrailing p cs <+: cs := by
  rw [dropTrailing_eq_rdropWhile]
  exact List.rdropWhile_prefix p cs

theorem mem_of_mem_dropTrailing (h : c ∈ dropTrailing p cs) : c ∈ cs :=
  (dropTrailing_isPrefix p cs).subset h

theorem dropTrailing_concat (p : Char → Bool) (cs : List Char) (c : Char) :
    dropTrailing p (cs ++ [c]) = if p c = true then dropTrailing p cs else cs ++ [c] := by
  rw [dropTrailing_eq_rdropWhile, dropTrailing_eq_rdropWhile, List.rdropWhile_concat]

theorem dropTrailing_append_of_all (hrest : ∀ c ∈ rest, p c = true) (cs : List Char) :
    dropTrailing p (cs ++ rest) = dropTrailing p cs := by
  induction rest using List.reverseRecOn with
  | nil => rw [List.append_nil]
  | append_singleton rest c ih =>
    rw [← List.append_assoc, dropTrailing_concat, if_pos (hrest c (by simp))]
    exact ih fun d hd => hrest d (List.mem_append_left _ hd)

theorem dropTrailing_append_of_ne_nil (hrest : dropTrailing p rest ≠ []) (cs : List Char) :
    dropTrailing p (cs ++ rest) = cs ++ dropTrailing p rest := by
  induction rest using List.reverseRecOn with
  | nil => exact absurd rfl hrest
  | append_singleton rest c ih =>
    rw [dropTrailing_concat] at hrest
    rw [← List.append_assoc, dropTrailing_concat, dropTrailing_concat]
    split
    · next hc =>
      rw [if_pos hc] at hrest
      exact ih hrest
    · rw [List.append_assoc]

theorem mem_dropTrailing_iff (hc : p c = false) : c ∈ dropTrailing p cs ↔ c ∈ cs := by
  induction cs using List.reverseRecOn with
  | nil => rfl
  | append_singleton cs d ih =>
    rw [dropTrailing_concat]
    split
    · next hd =>
      have hne : c ≠ d := by
        rintro rfl
        rw [hc] at hd
        cases hd
      simp [ih, hne]
    · rfl

/-- It makes no difference to drop a smaller class first. -/
theorem dropTrailing_after_smaller (hpq : ∀ c, p c = true → q c = true) (cs : List Char) :
    dropTrailing q (dropTrailing p cs) = dropTrailing q cs := by
  induction cs using List.reverseRecOn with
  | nil => rfl
  | append_singleton cs c ih =>
    rw [dropTrailing_concat p]
    split
    · next hc => rw [ih, dropTrailing_concat, if_pos (hpq c hc)]
    · rfl

/-- Nothing of a smaller class is left to drop. -/
theorem dropTrailing_after_larger (hpq : ∀ c, p c = true → q c = true) (cs : List Char) :
    dropTrailing p (dropTrailing q cs) = dropTrailing q cs := by
  rw [dropTrailing_eq_rdropWhile, dropTrailing_eq_rdropWhile, List.rdropWhile_eq_self_iff]
  intro hne hp
  exact List.rdropWhile_last_not q cs hne (hpq _ hp)

theorem dropTrailing_dropTrailing (p : Char → Bool) (cs : List Char) :
    dropTrailing p (dropTrailing p cs) = dropTrailing p cs :=
  dropTrailing_after_larger (fun _ hc => hc) cs

/-- A change of lines that leaves alone where a text ends: characters of a class can be dropped at
the end of a line before or after it, and no line disappears that has any others. -/
structure KeepsEnd (p : Char → Bool) (g : List Char → List Char) : Prop where
  nil : g [] = []
  eq_nil : ∀ line, g line = [] → dropTrailing p line = []
  dropTrailing_comm : ∀ line, dropTrailing p (g line) = g (dropTrailing p line)

namespace KeepsEnd

variable (hg : KeepsEnd p g)
include hg

theorem mapLines_nil : mapLines g [] = [] :=
  (mapLines_line List.not_mem_nil).trans hg.nil

theorem mapLines_eq_nil (h : mapLines g cs = []) : dropTrailing p cs = [] := by
  induction cs using line_induction with
  | last line hline =>
    rw [mapLines_line hline] at h
    exact hg.eq_nil line h
  | newline line rest hline _ =>
    rw [mapLines_newline hline] at h
    simp at h

theorem dropTrailing_mapLines (hp : p '\n' = true) (cs : List Char) :
    dropTrailing p (mapLines g cs) = mapLines g (dropTrailing p cs) := by
  have hfree {line : List Char} (hline : '\n' ∉ line) : '\n' ∉ dropTrailing p line :=
    mt mem_of_mem_dropTrailing hline
  induction cs using line_induction with
  | last line hline => rw [mapLines_line hline, hg.dropTrailing_comm, mapLines_line (hfree hline)]
  | newline line rest hline ih =>
    rw [mapLines_newline hline]
    by_cases hrest : dropTrailing p rest = []
    · -- The text ends on this line.
      rw [hrest, hg.mapLines_nil] at ih
      have hbefore : ∀ c ∈ '\n' :: rest, p c = true := by
        simpa [hp] using dropTrailing_eq_nil_iff.1 hrest
      have hafter : ∀ c ∈ '\n' :: mapLines g rest, p c = true := by
        simpa [hp] using dropTrailing_eq_nil_iff.1 ih
      rw [dropTrailing_append_of_all hbefore, dropTrailing_append_of_all hafter,
        hg.dropTrailing_comm, mapLines_line (hfree hline)]
    · -- It ends further down, on a line that does not disappear.
      have hkept : dropTrailing p (mapLines g rest) ≠ [] := by
        intro hnil
        rw [ih] at hnil
        have hnone := hg.mapLines_eq_nil hnil
        rw [dropTrailing_dropTrailing] at hnone
        exact hrest hnone
      have hcut (line : List Char) {rest : List Char} (hne : dropTrailing p rest ≠ []) :
          dropTrailing p (line ++ '\n' :: rest) = line ++ '\n' :: dropTrailing p rest := by
        rw [List.append_cons, dropTrailing_append_of_ne_nil hne, ← List.append_cons]
      rw [hcut line hrest, hcut (g line) hkept, ih, mapLines_newline hline]

end KeepsEnd

end StableFormat.Text
