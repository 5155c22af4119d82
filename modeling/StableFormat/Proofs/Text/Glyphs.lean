import StableFormat.Proofs.Text.Escapes
import StableFormat.Text.Glyphs

/-!
# Proofs: which texts come back from their visible form

Glyphs are written back by one substitution after the other. No substitution makes a glyph for a
later one, so that all of them together are one pass over the text. That pass does not see whether a
glyph stands for white space or was there before: what comes back from the visible form of a text is
what the pass makes of the text itself. So the texts that come back are those without glyphs.
-/

namespace StableFormat

namespace Text

/-- A text with its backslash codes undone in one pass. Each code is a backslash and a letter; a
backslash with anything else behind it is left alone. -/
def undoCodes (codes : List (Char × Char)) : List Char → List Char
  | '\\' :: x :: rest =>
    match codes.lookup x with
    | some c => c :: undoCodes codes rest
    | none => '\\' :: undoCodes codes (x :: rest)
  | c :: rest => c :: undoCodes codes rest
  | [] => []

variable {c d x : Char} {codes : List (Char × Char)} {cs rest : List Char} {old new s : String}

theorem undoCodes_cons (hc : c ≠ '\\') (rest : List Char) :
    undoCodes codes (c :: rest) = c :: undoCodes codes rest := by
  rw [undoCodes]
  rintro _ _ rfl
  exact absurd rfl hc

theorem undoCodes_code (h : codes.lookup x = some c) (rest : List Char) :
    undoCodes codes ('\\' :: x :: rest) = c :: undoCodes codes rest := by
  rw [undoCodes, h]

theorem undoCodes_backslash (h : ∀ x ∈ rest.head?, codes.lookup x = none) :
    undoCodes codes ('\\' :: rest) = '\\' :: undoCodes codes rest := by
  cases rest with
  | nil => rfl
  | cons x rest => rw [undoCodes, h x rfl]

theorem mem_of_lookup (h : codes.lookup x = some c) : (x, c) ∈ codes := by
  obtain ⟨before, behind, rfl, -⟩ := List.lookup_eq_some_iff.1 h
  exact List.mem_append_right before List.mem_cons_self

theorem head?_undoCodes (h : x ∈ (undoCodes codes cs).head?) :
    x ∈ cs.head? ∨ ∃ code ∈ codes, x = code.2 := by
  fun_induction undoCodes codes cs with
  | case1 y rest c hcode ih =>
    cases h
    exact Or.inr ⟨(y, x), mem_of_lookup hcode, rfl⟩
  | case2 y rest hcode ih => exact Or.inl h
  | case3 c rest hno ih => exact Or.inl h
  | case4 => exact Or.inl h

/-! ## One substitution after the other -/

theorem substitute_cons {first : Char} (hc : c ≠ first) (others new cs : List Char) :
    substitute first others new (c :: cs) = c :: substitute first others new cs := by
  rw [substitute, if_neg hc]

theorem substitute_of_some {first : Char} {others new : List Char}
    (h : dropLiteral? others cs = some rest) :
    substitute first others new (first :: cs) = new ++ substitute first others new rest := by
  rw [substitute, if_pos rfl]
  split
  · next hrest => rw [Option.some.inj (h.symm.trans hrest)]
  · next hnone => rw [h] at hnone; cases hnone

theorem substitute_of_none {first : Char} {others new : List Char}
    (h : dropLiteral? others cs = none) :
    substitute first others new (first :: cs) = first :: substitute first others new cs := by
  rw [substitute, if_pos rfl]
  split
  · next hrest => rw [h] at hrest; cases hrest
  · rfl

theorem substitute_code (x c : Char) (cs : List Char) :
    substitute '\\' [x] [c] cs = undoCodes [(x, c)] cs := by
  fun_induction undoCodes [(x, c)] cs with
  | case1 y rest d hcode ih =>
    obtain ⟨rfl, rfl⟩ : y = x ∧ d = c := by simpa using mem_of_lookup hcode
    have hdrop : dropLiteral? [y] (y :: rest) = some rest := dropLiteral?_append [y] rest
    rw [substitute_of_some hdrop, ih]
    rfl
  | case2 y rest hcode ih =>
    have hy : x ≠ y := by
      rintro rfl
      simp at hcode
    have hdrop : dropLiteral? [x] (y :: rest) = none := if_neg hy
    rw [substitute_of_none hdrop, ih]
  | case3 d rest hno ih =>
    by_cases hd : d = '\\'
    · subst hd
      cases rest with
      | nil => rw [substitute_of_none rfl, ih]
      | cons y rest => exact (hno y rest rfl rfl).elim
    · rw [substitute_cons hd, ih]
  | case4 => rw [substitute]

/-- To undo one more code in what is left of a text is to undo it with the others, if they do not make
parts of it. -/
theorem undoCodes_undoCodes (hnew : codes.lookup x = none) (hx : x ≠ '\\')
    (hcodes : ∀ code ∈ codes, code.2 ≠ '\\' ∧ code.2 ≠ x) (cs : List Char) :
    undoCodes [(x, c)] (undoCodes codes cs) = undoCodes ((x, c) :: codes) cs := by
  fun_induction undoCodes codes cs with
  | case1 y rest d hcode ih =>
    have hy : y ≠ x := by
      rintro rfl
      rw [hnew] at hcode
      cases hcode
    have hcode' : ((x, c) :: codes).lookup y = some d := by
      rw [List.lookup_cons, beq_false_of_ne hy, hcode]
    rw [undoCodes_cons (hcodes _ (mem_of_lookup hcode)).1, undoCodes_code hcode', ih]
  | case2 y rest hcode ih =>
    by_cases hy : y = x
    · subst hy
      have hfound (codes : List (Char × Char)) : ((y, c) :: codes).lookup y = some c :=
        List.lookup_cons_self
      rw [undoCodes_cons hx, undoCodes_cons hx, undoCodes_cons hx] at ih
      rw [undoCodes_cons hx, undoCodes_code (hfound []), undoCodes_code (hfound codes),
        (List.cons.inj ih).2]
    · have hother : ((x, c) :: codes).lookup y = none := by
        rw [List.lookup_cons, beq_false_of_ne hy, hcode]
      -- What stands behind the backslash now is no letter `x` that was not there before.
      have hhead : ∀ z ∈ (undoCodes codes (y :: rest)).head?, [(x, c)].lookup z = none := by
        intro z hz
        have hzx : z ≠ x := by
          rcases head?_undoCodes hz with hz | ⟨code, hcode, rfl⟩
          · cases hz
            exact hy
          · exact (hcodes code hcode).2
        rw [List.lookup_cons, beq_false_of_ne hzx, List.lookup_nil]
      have hhead' : ∀ z ∈ (y :: rest).head?, ((x, c) :: codes).lookup z = none := by
        rintro z ⟨⟩
        exact hother
      rw [undoCodes_backslash hhead, undoCodes_backslash hhead', ih]
  | case3 d rest hno ih =>
    by_cases hd : d = '\\'
    · subst hd
      cases rest with
      | nil => rfl
      | cons y rest => exact (hno y rest rfl rfl).elim
    · rw [undoCodes_cons hd, undoCodes_cons hd, ih]
  | case4 => rfl

/-! ## Texts that come back -/

theorem length_undoCodes_le (codes : List (Char × Char)) (cs : List Char) :
    (undoCodes codes cs).length ≤ cs.length := by
  fun_induction undoCodes codes cs with
  | case1 y rest c hcode ih =>
    simp only [List.length_cons]
    omega
  | case2 y rest hcode ih => exact Nat.succ_le_succ ih
  | case3 c rest hno ih => exact Nat.succ_le_succ ih
  | case4 => exact Nat.le_refl _

/-- A text without a code at its start holds none if its rest does not. -/
theorem noCode_cons_iff (hno : ∀ code ∈ codes, ¬ ['\\', code.1] <+: c :: rest) :
    (∀ code ∈ codes, ¬ ['\\', code.1] <:+: c :: rest) ↔
      ∀ code ∈ codes, ¬ ['\\', code.1] <:+: rest := by
  refine forall₂_congr fun code hcode => ?_
  rw [List.infix_cons_iff, not_or]
  exact and_iff_right (hno code hcode)

/-- Undoing codes leaves alone just the texts that hold none of them. -/
theorem undoCodes_eq_self_iff :
    undoCodes codes cs = cs ↔ ∀ code ∈ codes, ¬ ['\\', code.1] <:+: cs := by
  fun_induction undoCodes codes cs with
  | case1 y rest d hcode ih =>
    have hfound : ['\\', y] <:+: '\\' :: y :: rest := (List.prefix_append _ rest).isInfix
    refine iff_of_false (fun heq => ?_) fun hno => hno (y, d) (mem_of_lookup hcode) hfound
    have hlength := congrArg List.length heq
    have hle := length_undoCodes_le codes rest
    simp only [List.length_cons] at hlength
    omega
  | case2 y rest hcode ih =>
    have hno : ∀ code ∈ codes, ¬ ['\\', code.1] <+: '\\' :: y :: rest := by
      rintro ⟨z, d⟩ hmem hprefix
      obtain rfl : z = y := by simpa using hprefix
      have hne := List.lookup_eq_none_iff.1 hcode _ hmem
      simp at hne
    rw [noCode_cons_iff hno, ← ih]
    exact List.cons_inj_right _
  | case3 d rest hno ih =>
    have hno' : ∀ code ∈ codes, ¬ ['\\', code.1] <+: d :: rest := by
      rintro code - ⟨behind, hprefix⟩
      obtain ⟨hd, hrest⟩ := List.cons.inj hprefix
      exact hno _ _ hd.symm hrest.symm
    rw [noCode_cons_iff hno', ← ih]
    exact List.cons_inj_right _
  | case4 => simp

end Text

/-! ## The fancy glyphs -/

namespace Glyphs

open Text

variable {c : Char} {g : Glyphs} {s : String}

/-- The character that stands for a character in the fancy form. -/
def mark (c : Char) : Char :=
  if c = ' ' then '·' else if c = '\t' then '⇥' else if c = '\r' then '␍' else
    if c = '\n' then '␊' else c

/-- The character for a fancy glyph. -/
def unmark (c : Char) : Char :=
  if c = '·' then ' ' else if c = '⇥' then '\t' else if c = '␍' then '\r' else
    if c = '␊' then '\n' else c

theorem unmark_mark (c : Char) : unmark (mark c) = unmark c := by
  rw [mark]
  split_ifs with hspace htab hcr hlf
  · rw [hspace]; rfl
  · rw [htab]; rfl
  · rw [hcr]; rfl
  · rw [hlf]; rfl
  · rfl

theorem unmark_eq_self_iff : unmark c = c ↔ c ∉ ['·', '⇥', '␍', '␊'] := by
  rw [unmark]
  split_ifs with hspace htab hcr hlf
  · rw [hspace]; decide
  · rw [htab]; decide
  · rw [hcr]; decide
  · rw [hlf]; decide
  · simp [hspace, htab, hcr, hlf]

theorem toList_replaceLiteral_char {old new : String} {d : Char} (hold : old.toList = [c])
    (hnew : new.toList = [d]) (s : String) :
    (replaceLiteral old new s).toList = s.toList.map fun x => if x = c then d else x := by
  rw [replaceLiteral, hold, hnew]
  refine String.toList_ofList.trans ?_
  rw [substitute_char, List.map_eq_flatMap]
  refine List.flatMap_congr fun x _ => ?_
  split_ifs <;> rfl

theorem toList_visualize (g : Glyphs) (s : String) :
    (g.visualize s).toList = s.toList.flatMap g.ofChar :=
  String.toList_ofList

theorem toList_visualize_fancy (s : String) :
    (fancy.visualize s).toList = s.toList.map mark := by
  have hmark (c : Char) : fancy.ofChar c = [mark c] := by
    rw [ofChar, mark]
    split_ifs <;> rfl
  rw [toList_visualize, List.flatMap_congr fun c _ => hmark c, List.map_eq_flatMap]

theorem toList_devisualize_fancy (s : String) :
    (fancy.devisualize s).toList = s.toList.map unmark := by
  have hspace : fancy.space.toList = ['·'] ∧ " ".toList = [' '] := by decide
  have htab : fancy.tab.toList = ['⇥'] ∧ "\t".toList = ['\t'] := by decide
  have hcr : fancy.cr.toList = ['␍'] ∧ "\r".toList = ['\r'] := by decide
  have hlf : fancy.lf.toList = ['␊'] ∧ "\n".toList = ['\n'] := by decide
  rw [devisualize, toList_replaceLiteral_char hlf.1 hlf.2, toList_replaceLiteral_char hcr.1 hcr.2,
    toList_replaceLiteral_char htab.1 htab.2, toList_replaceLiteral_char hspace.1 hspace.2,
    List.map_map, List.map_map, List.map_map]
  refine List.map_congr_left fun c _ => ?_
  by_cases hc : c ∈ ['·', '⇥', '␍', '␊']
  · simp only [List.mem_cons, List.not_mem_nil, or_false] at hc
    rcases hc with rfl | rfl | rfl | rfl <;> rfl
  · rw [unmark_eq_self_iff.2 hc]
    simp only [List.mem_cons, List.not_mem_nil, or_false, not_or] at hc
    simp [hc]

/-! ## The simple glyphs -/

/-- The codes of the simple glyphs, the one that is undone last in front. -/
def simpleCodes : List (Char × Char) := [('n', '\n'), ('r', '\r'), ('t', '\t')]

theorem toList_replaceLiteral_code {old new : String} {x : Char} (hold : old.toList = ['\\', x])
    (hnew : new.toList = [c]) (s : String) :
    (replaceLiteral old new s).toList = undoCodes [(x, c)] s.toList := by
  rw [replaceLiteral, hold, hnew]
  exact String.toList_ofList.trans (substitute_code x c s.toList)

theorem toList_devisualize_simple (s : String) :
    (simple.devisualize s).toList = undoCodes simpleCodes s.toList := by
  have hspace : simple.space.toList = [' '] ∧ " ".toList = [' '] := by decide
  have htab : simple.tab.toList = ['\\', 't'] ∧ "\t".toList = ['\t'] := by decide
  have hcr : simple.cr.toList = ['\\', 'r'] ∧ "\r".toList = ['\r'] := by decide
  have hlf : simple.lf.toList = ['\\', 'n'] ∧ "\n".toList = ['\n'] := by decide
  have hsame : (fun x => if x = ' ' then ' ' else x) = id := by
    funext x
    split_ifs with hx
    · exact hx.symm
    · rfl
  rw [devisualize, toList_replaceLiteral_code hlf.1 hlf.2, toList_replaceLiteral_code hcr.1 hcr.2,
    toList_replaceLiteral_code htab.1 htab.2, toList_replaceLiteral_char hspace.1 hspace.2, hsame,
    List.map_id, undoCodes_undoCodes (by decide) (by decide) (by decide) s.toList,
    undoCodes_undoCodes (by decide) (by decide) (by decide) s.toList, simpleCodes]

theorem ofChar_simple (c : Char) :
    simple.ofChar c = [c] ∨ ∃ x, simple.ofChar c = ['\\', x] ∧ simpleCodes.lookup x = some c := by
  rw [ofChar]
  split_ifs with hspace htab hcr hlf
  · exact Or.inl (congrArg (fun c => [c]) hspace.symm)
  · exact Or.inr ⟨'t', rfl, congrArg some htab.symm⟩
  · exact Or.inr ⟨'r', rfl, congrArg some hcr.symm⟩
  · exact Or.inr ⟨'n', rfl, congrArg some hlf.symm⟩
  · exact Or.inl rfl

/-- Making white space visible with backslash codes changes nothing for a reader who undoes them. -/
theorem undoCodes_visualize_simple (cs : List Char) :
    undoCodes simpleCodes (cs.flatMap simple.ofChar) = undoCodes simpleCodes cs := by
  have hkept : simple.ofChar '\\' = ['\\'] := rfl
  fun_induction undoCodes simpleCodes cs with
  | case1 y rest c hcode ih =>
    -- A letter of a code is not white space, so the code is still there.
    have hletter : simple.ofChar y = [y] := by
      have hmem := mem_of_lookup hcode
      simp only [simpleCodes, List.mem_cons, Prod.mk.injEq, List.not_mem_nil, or_false] at hmem
      rcases hmem with ⟨rfl, -⟩ | ⟨rfl, -⟩ | ⟨rfl, -⟩ <;> rfl
    rw [List.flatMap_cons, hkept, List.flatMap_cons, hletter]
    exact (undoCodes_code hcode _).trans (congrArg _ ih)
  | case2 y rest hcode ih =>
    have hhead : ∀ z ∈ ((y :: rest).flatMap simple.ofChar).head?, simpleCodes.lookup z = none := by
      rcases ofChar_simple y with hy | ⟨x, hy, -⟩
      · rw [List.flatMap_cons, hy]
        rintro z ⟨⟩
        exact hcode
      · rw [List.flatMap_cons, hy]
        rintro z ⟨⟩
        rfl
    rw [List.flatMap_cons, hkept, List.singleton_append, undoCodes_backslash hhead, ih]
  | case3 c rest hno ih =>
    rw [List.flatMap_cons]
    rcases ofChar_simple c with hc | ⟨x, hc, hcode⟩
    · rw [hc, List.singleton_append]
      by_cases hback : c = '\\'
      · subst hback
        cases rest with
        | nil => rfl
        | cons y rest => exact (hno y rest rfl rfl).elim
      · rw [undoCodes_cons hback, ih]
    · rw [hc]
      exact (undoCodes_code hcode _).trans (congrArg _ ih)
  | case4 => rfl

/-! ## Both sets -/

/-- What is no white space of the four kinds is shown as it is. -/
theorem not_mem_ofChar (hc : c ∈ ['\t', '\r', '\n'])
    (hglyphs : ∀ glyph ∈ [g.space, g.tab, g.cr, g.lf], c ∉ glyph.toList) (d : Char) :
    c ∉ g.ofChar d := by
  simp only [List.forall_mem_cons] at hglyphs
  obtain ⟨hspace, htab, hcr, hlf, -⟩ := hglyphs
  rw [ofChar]
  split_ifs with h₁ h₂ h₃ h₄
  · exact hspace
  · exact htab
  · exact hcr
  · exact hlf
  · rw [List.mem_singleton]
    rintro rfl
    simp [h₂, h₃, h₄] at hc

theorem not_mem_visualize (hc : ∀ d, c ∉ g.ofChar d) (s : String) :
    c ∉ (g.visualize s).toList := by
  rw [toList_visualize, List.mem_flatMap]
  rintro ⟨d, -, hd⟩
  exact hc d hd

/-- A text comes back from its visible form exactly if it holds no glyph itself: none of the four
characters of the fancy set, or none of the backslash codes of the simple set. The visible form never
holds a tab or one of the characters that end lines. -/
theorem devisualize_visualize_iff (s : String) :
    (fancy.devisualize (fancy.visualize s) = s ↔ ∀ c ∈ ['·', '⇥', '␍', '␊'], c ∉ s.toList) ∧
    (simple.devisualize (simple.visualize s) = s ↔
      ∀ x ∈ ['t', 'r', 'n'], ¬ ['\\', x] <:+: s.toList) ∧
    ∀ g ∈ [fancy, simple], ∀ c ∈ ['\t', '\r', '\n'], c ∉ (g.visualize s).toList := by
  refine ⟨?fancy, ?simple, ?visible⟩
  case fancy =>
    have hback : (s.toList.map mark).map unmark = s.toList.map unmark := by
      rw [List.map_map]
      exact List.map_congr_left fun c _ => unmark_mark c
    rw [← String.toList_inj, toList_devisualize_fancy, toList_visualize_fancy, hback]
    have hself := List.map_inj_left (l := s.toList) (f := unmark) (g := id)
    simp only [List.map_id, id_eq, unmark_eq_self_iff] at hself
    rw [hself]
    exact ⟨fun h c hc hmem => h c hmem hc, fun h c hmem hc => h c hc hmem⟩
  case simple =>
    rw [← String.toList_inj, toList_devisualize_simple, toList_visualize, undoCodes_visualize_simple,
      undoCodes_eq_self_iff]
    simp only [simpleCodes, List.mem_cons, List.not_mem_nil, or_false, forall_eq_or_imp, forall_eq]
    exact ⟨fun ⟨hlf, hcr, htab⟩ => ⟨htab, hcr, hlf⟩, fun ⟨htab, hcr, hlf⟩ => ⟨hlf, hcr, htab⟩⟩
  case visible =>
    intro g hg c hc
    refine not_mem_visualize (not_mem_ofChar hc ?_) s
    simp only [List.mem_cons, List.not_mem_nil, or_false] at hg hc
    rcases hg with rfl | rfl <;> rcases hc with rfl | rfl | rfl <;> decide

/-- A backslash in front of a tab is no code, although the visible form has two backslashes. -/
example : simple.devisualize (simple.visualize "\\\t") = "\\\t" := by
  cbv

end Glyphs

end StableFormat
