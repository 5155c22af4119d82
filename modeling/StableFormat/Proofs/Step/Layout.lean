import StableFormat.Proofs.Step.Columns
import StableFormat.Step.Spec

/-!
# Proofs: steps that lay a text out

Trimming lines, ending the text with one line break and making indentation anew change white space
only. Any two of these steps can trade places, but for two that indent: there the later one undoes
what the earlier one did. A step that the chain has anyway can therefore be left out before it, and
so a chain of such steps has nothing to do on its own results.
-/

namespace StableFormat

open Text Builtin

variable {style style' : IndentStyle} {width column n k : ℕ} {c : Char} {text : String}

/-! ## The steps line by line -/

theorem toList_trimTrailingBlanks (text : String) :
    (trimTrailingBlanks text).toList = mapLines (dropTrailing isBlank) text.toList := by
  rw [trimTrailingBlanks, String.toList_ofList, replaceMatches_trailingBlanks]

theorem toList_endWithNewline (text : String) :
    (Builtin.endWithNewline text).toList = dropTrailing isWhiteSpace text.toList ++ ['\n'] := by
  rw [Builtin.endWithNewline, String.toList_ofList]

theorem isWhiteSpace_of_isBlank (c : Char) (hc : isBlank c = true) : isWhiteSpace c = true := by
  simp only [isBlank, Bool.or_eq_true, decide_eq_true_eq] at hc
  rcases hc with rfl | rfl <;> decide

/-- A change of lines that puts in and takes away nothing but blanks, and leaves alone where a text
ends. -/
structure ChangesBlanks (g : List Char → List Char) : Prop where
  keepsEnd : KeepsEnd isWhiteSpace g
  mem_iff : ∀ {c}, isBlank c = false → ∀ line, c ∈ g line ↔ c ∈ line

theorem changesBlanks_trim : ChangesBlanks (dropTrailing isBlank) where
  keepsEnd :=
    { nil := rfl
      eq_nil := fun line h => by
        rw [← dropTrailing_after_smaller isWhiteSpace_of_isBlank, h]
        rfl
      dropTrailing_comm := fun line => by
        rw [dropTrailing_after_smaller isWhiteSpace_of_isBlank,
          dropTrailing_after_larger isWhiteSpace_of_isBlank] }
  mem_iff hc _ := mem_dropTrailing_iff hc

theorem changesBlanks_reindent (style : IndentStyle) (width : ℕ) :
    ChangesBlanks (reindentLine style width) where
  keepsEnd := (replacesBlanks_indentation style width).keepsEnd isWhiteSpace_of_isBlank
  mem_iff := (replacesBlanks_indentation style width).mem_replaceLead_iff

theorem ChangesBlanks.mem_mapLines_iff {g : List Char → List Char} (hg : ChangesBlanks g)
    (hc : isBlank c = false) {cs : List Char} : c ∈ mapLines g cs ↔ c ∈ cs :=
  Text.mem_mapLines_iff (hg.mem_iff hc)

theorem ChangesBlanks.mapLines_mapLines {g h : List Char → List Char} (hh : ChangesBlanks h)
    (cs : List Char) : mapLines g (mapLines h cs) = mapLines (g ∘ h) cs :=
  Text.mapLines_mapLines (fun line => (hh.mem_iff isBlank_newline line).1) cs

theorem isWhiteSpace_newline : isWhiteSpace '\n' = true := by decide

/-- Once a text ends with one line break, its end is settled. -/
theorem dropTrailing_settledEnd (cs : List Char) :
    dropTrailing isWhiteSpace (dropTrailing isWhiteSpace cs ++ ['\n']) =
      dropTrailing isWhiteSpace cs := by
  have hnewline : ∀ c ∈ ['\n'], isWhiteSpace c = true := by simpa using isWhiteSpace_newline
  rw [dropTrailing_append_of_all hnewline, dropTrailing_dropTrailing]

/-! ## Which steps trade places -/

theorem trim_trim (text : String) :
    trimTrailingBlanks (trimTrailingBlanks text) = trimTrailingBlanks text := by
  apply String.toList_injective
  rw [toList_trimTrailingBlanks, toList_trimTrailingBlanks, changesBlanks_trim.mapLines_mapLines]
  exact mapLines_congr (fun line _ => dropTrailing_dropTrailing isBlank line) _

theorem reindented_reindented (style style' : IndentStyle) (hwidth : 0 < width) (text : String) :
    reindented style width (reindented style' width text) = reindented style width text := by
  apply String.toList_injective
  rw [toList_reindented, toList_reindented, toList_reindented,
    (changesBlanks_reindent style' width).mapLines_mapLines]
  exact mapLines_congr (fun line _ => reindentLine_reindentLine style style' hwidth line) _

theorem trim_reindented (style : IndentStyle) (width : ℕ) (text : String) :
    trimTrailingBlanks (reindented style width text) =
      reindented style width (trimTrailingBlanks text) := by
  have hlines : KeepsEnd isBlank (reindentLine style width) :=
    (replacesBlanks_indentation style width).keepsEnd fun _ h => h
  apply String.toList_injective
  rw [toList_trimTrailingBlanks, toList_reindented, toList_reindented, toList_trimTrailingBlanks,
    (changesBlanks_reindent style width).mapLines_mapLines, changesBlanks_trim.mapLines_mapLines]
  exact mapLines_congr (fun line _ => hlines.dropTrailing_comm line) _

theorem endWithNewline_endWithNewline (text : String) :
    Builtin.endWithNewline (Builtin.endWithNewline text) = Builtin.endWithNewline text := by
  apply String.toList_injective
  rw [toList_endWithNewline, toList_endWithNewline, dropTrailing_settledEnd]

/-- The end of a text can be settled before its lines are changed, or after. -/
theorem ChangesBlanks.endWithNewline_comm {g : List Char → List Char} (hg : ChangesBlanks g)
    {f : String → String} (hf : ∀ text, (f text).toList = mapLines g text.toList) (text : String) :
    Builtin.endWithNewline (f text) = f (Builtin.endWithNewline text) := by
  apply String.toList_injective
  rw [hf, toList_endWithNewline, toList_endWithNewline, hf, mapLines_append_newline,
    hg.keepsEnd.mapLines_nil, hg.keepsEnd.dropTrailing_mapLines isWhiteSpace_newline]

theorem endWithNewline_trim (text : String) :
    Builtin.endWithNewline (trimTrailingBlanks text) =
      trimTrailingBlanks (Builtin.endWithNewline text) :=
  changesBlanks_trim.endWithNewline_comm toList_trimTrailingBlanks text

theorem endWithNewline_reindented (style : IndentStyle) (width : ℕ) (text : String) :
    Builtin.endWithNewline (reindented style width text) =
      reindented style width (Builtin.endWithNewline text) :=
  (changesBlanks_reindent style width).endWithNewline_comm (toList_reindented style width) text

/-! ## Where lines start after a step -/

/-- No line of a text starts anywhere but at the front, or where some line of another text starts. -/
def StartsWithin (width : ℕ) (text source : String) : Prop :=
  ∀ column ∈ startColumns width text, column = 0 ∨ column ∈ startColumns width source

namespace StartsWithin

variable {source : String}

theorem refl (width : ℕ) (text : String) : StartsWithin width text text :=
  fun _ hcolumn => Or.inr hcolumn

theorem trans {middle : String} (h : StartsWithin width text middle)
    (h' : StartsWithin width middle source) : StartsWithin width text source := by
  intro column hcolumn
  rcases h column hcolumn with hzero | hmem
  · exact Or.inl hzero
  · exact h' column hmem

/-- Indentation that can be made for the other text can be made for this one. -/
theorem fits (h : StartsWithin width text source)
    (hfits : ∀ column ∈ startColumns width source, style.Fits width column) :
    ∀ column ∈ startColumns width text, style.Fits width column := by
  intro column hcolumn
  rcases h column hcolumn with rfl | hmem
  · exact fits_of_lt (Nat.two_pow_pos 63)
  · exact hfits column hmem

theorem of_mapLines {g : List Char → List Char} {f : String → String}
    (hf : ∀ text, (f text).toList = mapLines g text.toList) (hg : ∀ line, '\n' ∈ g line → '\n' ∈ line)
    (hstart : ∀ line, startColumn width (g line) = 0 ∨
      startColumn width (g line) = startColumn width line) (text : String) :
    StartsWithin width (f text) text := by
  intro column hcolumn
  rw [startColumns, hf, splitAtChar_mapLines hg, List.map_map] at hcolumn
  obtain ⟨line, hline, rfl⟩ := List.mem_map.1 hcolumn
  refine (hstart line).imp_right fun hsame => ?_
  rw [Function.comp_apply, hsame]
  exact List.mem_map_of_mem hline

end StartsWithin

/-- A line that loses what is at its end, blanks at least, starts where it did or is left empty. -/
theorem startColumn_dropTrailing {p : Char → Bool} (hp : ∀ c, isBlank c = true → p c = true)
    (line : List Char) : startColumn width (dropTrailing p line) = 0 ∨
      startColumn width (dropTrailing p line) = startColumn width line := by
  obtain ⟨lead, rest, rfl, hlead, hrest⟩ := exists_lead line
  by_cases hnil : dropTrailing p rest = []
  · left
    have hall : ∀ c ∈ lead, p c = true := fun c hc => hp c (hlead c hc)
    rw [dropTrailing_append_of_all (dropTrailing_eq_nil_iff.1 hnil),
      dropTrailing_eq_nil_iff.2 hall]
    rfl
  · right
    rw [dropTrailing_append_of_ne_nil hnil, startColumn, startColumn,
      takeWhile_lead hlead (head?_dropTrailing hrest), takeWhile_lead hlead hrest]

theorem startsWithin_trim (width : ℕ) (text : String) :
    StartsWithin width (trimTrailingBlanks text) text :=
  .of_mapLines toList_trimTrailingBlanks
    (fun line => (changesBlanks_trim.mem_iff isBlank_newline line).1)
    (startColumn_dropTrailing fun _ h => h) text

theorem startsWithin_reindented (style : IndentStyle) (hwidth : 0 < width) (text : String) :
    StartsWithin width (reindented style width text) text :=
  .of_mapLines (toList_reindented style width)
    (fun line => ((changesBlanks_reindent style width).mem_iff isBlank_newline line).1)
    (fun line => Or.inr (startColumn_reindentLine style hwidth line)) text

/-- What is left of a text that loses the white space at its end are its first lines, and the last of
these may have lost something at its end. -/
theorem mem_splitAtChar_dropTrailing {p : Char → Bool} (hp : p '\n' = true) {cs line : List Char}
    (h : line ∈ splitAtChar '\n' (dropTrailing p cs)) :
    ∃ line' ∈ splitAtChar '\n' cs, line = line' ∨ line = dropTrailing p line' := by
  induction cs using line_induction with
  | last last hlast =>
    rw [splitAtChar_of_notMem (mt mem_of_mem_dropTrailing hlast), List.mem_singleton] at h
    rw [splitAtChar_of_notMem hlast]
    exact ⟨last, List.mem_singleton_self last, Or.inr h⟩
  | newline first rest hfirst ih =>
    rw [splitAtChar_append_sep, splitAtChar_of_notMem hfirst, List.singleton_append]
    by_cases hrest : dropTrailing p rest = []
    · have hall : ∀ c ∈ '\n' :: rest, p c = true := by
        simpa [hp] using dropTrailing_eq_nil_iff.1 hrest
      rw [dropTrailing_append_of_all hall,
        splitAtChar_of_notMem (mt mem_of_mem_dropTrailing hfirst), List.mem_singleton] at h
      exact ⟨first, List.mem_cons_self, Or.inr h⟩
    · rw [List.append_cons, dropTrailing_append_of_ne_nil hrest, ← List.append_cons,
        splitAtChar_append_sep, splitAtChar_of_notMem hfirst, List.singleton_append,
        List.mem_cons] at h
      rcases h with rfl | h
      · exact ⟨line, List.mem_cons_self, Or.inl rfl⟩
      · obtain ⟨line', hline', hsame⟩ := ih h
        exact ⟨line', List.mem_cons_of_mem _ hline', hsame⟩

theorem startsWithin_endWithNewline (width : ℕ) (text : String) :
    StartsWithin width (Builtin.endWithNewline text) text := by
  intro column hcolumn
  rw [startColumns, toList_endWithNewline, splitAtChar_append_sep, List.map_append,
    List.mem_append] at hcolumn
  rcases hcolumn with hcolumn | hcolumn
  · obtain ⟨line, hline, rfl⟩ := List.mem_map.1 hcolumn
    obtain ⟨line', hline', rfl | rfl⟩ := mem_splitAtChar_dropTrailing isWhiteSpace_newline hline
    · exact Or.inr (List.mem_map_of_mem hline')
    · refine (startColumn_dropTrailing isWhiteSpace_of_isBlank line').imp_right fun hsame => ?_
      rw [hsame]
      exact List.mem_map_of_mem hline'
  · left
    simpa [splitAtChar, startColumn, columnFrom] using hcolumn

/-! ## Steps whose numbers can leave their range -/

namespace Step

variable {name result : String} {f : String → Checked String} {cause : StepCause}

theorem ofChecked_eq_ok :
    (ofChecked name f).transform text = .ok result ↔ f text = .ok result :=
  mapError_eq_ok

theorem isRefusal_ofChecked (h : (ofChecked name f).transform text = .error cause) :
    cause.isRefusal = false := by
  obtain ⟨place, -, rfl⟩ := mapError_eq_error.1 h
  rfl

end Step

/-! ## Chains of such steps -/

namespace StepSpec

variable {spec spec' : StepSpec} {specs done : List StepSpec} {source : String}

/-- The step changes nothing but white space; its tab stops, if it has any, are every `width`
columns. -/
def LaysOut (width : ℕ) : StepSpec → Prop
  | trimTrailingWhitespace | endWithNewline => True
  | indent _ ownWidth => max ownWidth 1 = width
  | replacePattern .. => False

/-- What a step that lays a text out makes of it, when its numbers stay in their range. Replacements
are left out. -/
def layOut : StepSpec → String → String
  | trimTrailingWhitespace => trimTrailingBlanks
  | endWithNewline => Builtin.endWithNewline
  | indent style width => reindented style (max width 1)
  | replacePattern .. => id

/-- The numbers of the step stay in their range on a text. -/
def InRange (text : String) : StepSpec → Prop
  | indent style width => ∀ column ∈ startColumns (max width 1) text, style.Fits (max width 1) column
  | _ => True

/-- What a chain of such steps makes of a text. -/
def layOutAll (specs : List StepSpec) (text : String) : String :=
  specs.foldl (fun text spec => spec.layOut text) text

/-- The numbers of every step stay in their range on what the steps before it make of a text. -/
def AllInRange : List StepSpec → String → Prop
  | [], _ => True
  | spec :: rest, text => spec.InRange text ∧ AllInRange rest (spec.layOut text)

theorem pos_of_laysOut {style : IndentStyle} {ownWidth : ℕ}
    (h : (indent style ownWidth).LaysOut width) : 0 < width := by
  have hwidth : max ownWidth 1 = width := h
  omega

/-- A step goes along the lines of the text, or sees to its end. -/
theorem layOut_cases (h : spec.LaysOut width) :
    (∃ g, ChangesBlanks g ∧ ∀ text, (spec.layOut text).toList = mapLines g text.toList) ∨
      ∀ text, (spec.layOut text).toList = dropTrailing isWhiteSpace text.toList ++ ['\n'] := by
  cases spec with
  | trimTrailingWhitespace => exact Or.inl ⟨_, changesBlanks_trim, toList_trimTrailingBlanks⟩
  | endWithNewline => exact Or.inr toList_endWithNewline
  | replacePattern name pattern replacement => cases h
  | indent style ownWidth =>
    exact Or.inl ⟨_, changesBlanks_reindent style _, toList_reindented style _⟩

theorem layOut_layOut_self (spec : StepSpec) (text : String) :
    spec.layOut (spec.layOut text) = spec.layOut text := by
  cases spec with
  | trimTrailingWhitespace => exact trim_trim text
  | endWithNewline => exact endWithNewline_endWithNewline text
  | replacePattern name pattern replacement => rfl
  | indent style width => exact reindented_reindented style style (by omega) text

/-- Two steps trade places, or the later one undoes the earlier one. -/
theorem layOut_comm_or_last (h : spec.LaysOut width) (h' : spec'.LaysOut width) :
    (∀ text, spec.layOut (spec'.layOut text) = spec'.layOut (spec.layOut text)) ∨
      ∀ text, spec.layOut (spec'.layOut text) = spec.layOut text := by
  cases spec with
  | trimTrailingWhitespace =>
    cases spec' with
    | trimTrailingWhitespace => exact Or.inl fun _ => rfl
    | endWithNewline => exact Or.inl fun text => (endWithNewline_trim text).symm
    | replacePattern name pattern replacement => cases h'
    | indent style ownWidth => exact Or.inl (trim_reindented style _)
  | endWithNewline =>
    cases spec' with
    | trimTrailingWhitespace => exact Or.inl endWithNewline_trim
    | endWithNewline => exact Or.inl fun _ => rfl
    | replacePattern name pattern replacement => cases h'
    | indent style ownWidth => exact Or.inl (endWithNewline_reindented style _)
  | replacePattern name pattern replacement => cases h
  | indent style ownWidth =>
    cases spec' with
    | trimTrailingWhitespace => exact Or.inl fun text => (trim_reindented style _ text).symm
    | endWithNewline => exact Or.inl fun text => (endWithNewline_reindented style _ text).symm
    | replacePattern name pattern replacement => cases h'
    | indent style' ownWidth' =>
      right
      intro text
      have hwidth : max ownWidth 1 = width := h
      have hwidth' : max ownWidth' 1 = width := h'
      show reindented style (max ownWidth 1) (reindented style' (max ownWidth' 1) text) =
        reindented style (max ownWidth 1) text
      rw [hwidth, hwidth', reindented_reindented style style' (pos_of_laysOut h)]

/-- A step that the chain has can be left out before it. -/
theorem layOutAll_layOut (hspecs : ∀ spec ∈ specs, spec.LaysOut width) (hspec : spec ∈ specs)
    (text : String) : layOutAll specs (spec.layOut text) = layOutAll specs text := by
  induction specs generalizing text with
  | nil => cases hspec
  | cons first rest ih =>
    have hrest : ∀ spec ∈ rest, spec.LaysOut width :=
      fun s hs => hspecs s (List.mem_cons_of_mem _ hs)
    have hcons (text : String) : layOutAll (first :: rest) text =
        layOutAll rest (first.layOut text) := rfl
    rw [hcons, hcons]
    by_cases hfirst : spec = first
    · rw [hfirst, layOut_layOut_self]
    · have hmem : spec ∈ rest := List.mem_of_ne_of_mem hfirst hspec
      rcases layOut_comm_or_last (hspecs first List.mem_cons_self) (hspecs spec hspec) with
        hcomm | hlast
      · rw [hcomm, ih hrest hmem]
      · rw [hlast]

/-- Steps of the chain that have run already make no difference to what it does. -/
theorem layOutAll_after (hspecs : ∀ spec ∈ specs, spec.LaysOut width) (hdone : done ⊆ specs)
    (text : String) : layOutAll specs (layOutAll done text) = layOutAll specs text := by
  induction done generalizing text with
  | nil => rfl
  | cons first rest ih =>
    rw [List.cons_subset] at hdone
    have hcons : layOutAll (first :: rest) text = layOutAll rest (first.layOut text) := rfl
    rw [hcons, ih hdone.2, layOutAll_layOut hspecs hdone.1]

/-! ## Columns along a chain -/

theorem startsWithin_layOut (h : spec.LaysOut width) (text : String) :
    StartsWithin width (spec.layOut text) text := by
  cases spec with
  | trimTrailingWhitespace => exact startsWithin_trim width text
  | endWithNewline => exact startsWithin_endWithNewline width text
  | replacePattern name pattern replacement => cases h
  | indent style ownWidth =>
    have hwidth : max ownWidth 1 = width := h
    subst hwidth
    exact startsWithin_reindented style (by omega) text

theorem startsWithin_layOutAll (hspecs : ∀ spec ∈ specs, spec.LaysOut width) (text : String) :
    StartsWithin width (layOutAll specs text) text := by
  induction specs generalizing text with
  | nil => exact .refl width text
  | cons spec rest ih =>
    have hrest := ih (fun s hs => hspecs s (List.mem_cons_of_mem _ hs)) (spec.layOut text)
    exact hrest.trans (startsWithin_layOut (hspecs spec List.mem_cons_self) text)

theorem InRange.of_startsWithin (h : spec.InRange source) (hspec : spec.LaysOut width)
    (hwithin : StartsWithin width text source) : spec.InRange text := by
  cases spec with
  | trimTrailingWhitespace => trivial
  | endWithNewline => trivial
  | replacePattern name pattern replacement => trivial
  | indent style ownWidth =>
    have hwidth : max ownWidth 1 = width := hspec
    subst hwidth
    exact hwithin.fits h

/-- The chain stays in range on its own results: their lines start where lines of the text started
before every step. -/
theorem AllInRange.of_startsWithin (hspecs : ∀ spec ∈ specs, spec.LaysOut width)
    (h : AllInRange specs source) (hwithin : StartsWithin width text (layOutAll specs source)) :
    AllInRange specs text := by
  induction specs generalizing source text with
  | nil => trivial
  | cons spec rest ih =>
    have hspec := hspecs spec List.mem_cons_self
    have hrest : ∀ spec ∈ rest, spec.LaysOut width :=
      fun s hs => hspecs s (List.mem_cons_of_mem _ hs)
    have hlaid : StartsWithin width text (layOutAll rest (spec.layOut source)) := hwithin
    have hsource : StartsWithin width text source :=
      (hlaid.trans (startsWithin_layOutAll hrest _)).trans (startsWithin_layOut hspec source)
    exact ⟨h.1.of_startsWithin hspec hsource,
      ih hrest h.2 ((startsWithin_layOut hspec text).trans hlaid)⟩

theorem inRange_of_lt (hspec : spec.LaysOut width)
    (h : ∀ column ∈ startColumns width text, column < 2 ^ 63) : spec.InRange text := by
  cases spec with
  | trimTrailingWhitespace => trivial
  | endWithNewline => trivial
  | replacePattern name pattern replacement => trivial
  | indent style ownWidth =>
    have hwidth : max ownWidth 1 = width := hspec
    subst hwidth
    exact fun column hcolumn => fits_of_lt (h column hcolumn)

/-- Columns with fewer than 64 bits stay in range, whatever the style. -/
theorem allInRange_of_lt (hspecs : ∀ spec ∈ specs, spec.LaysOut width)
    (h : ∀ column ∈ startColumns width text, column < 2 ^ 63) : AllInRange specs text := by
  induction specs generalizing text with
  | nil => trivial
  | cons spec rest ih =>
    have hspec := hspecs spec List.mem_cons_self
    have hnext : ∀ column ∈ startColumns width (spec.layOut text), column < 2 ^ 63 := by
      intro column hcolumn
      rcases startsWithin_layOut hspec text column hcolumn with rfl | hmem
      · exact Nat.two_pow_pos 63
      · exact h column hmem
    exact ⟨inRange_of_lt hspec h, ih (fun s hs => hspecs s (List.mem_cons_of_mem _ hs)) hnext⟩

/-! ## The steps and the chain that are built -/

/-- A step that lays texts out can be built, and refuses none. -/
theorem build_of_laysOut (h : spec.LaysOut width) :
    ∃ step, spec.build = .ok step ∧
      (∀ text result, step.transform text = .ok result ↔
        spec.InRange text ∧ result = spec.layOut text) ∧
      ∀ text cause, step.transform text = .error cause → cause.isRefusal = false := by
  have hfunction (name : String) (f : String → String) (text result : String) :
      (Step.ofFunction name f).transform text = .ok result ↔ True ∧ result = f text := by
    simp [Step.ofFunction, eq_comm]
  cases spec with
  | trimTrailingWhitespace => exact ⟨_, rfl, hfunction _ _, fun _ _ => nofun⟩
  | endWithNewline => exact ⟨_, rfl, hfunction _ _, fun _ _ => nofun⟩
  | replacePattern name pattern replacement => cases h
  | indent style width =>
    refine ⟨_, rfl, ?_, ?_⟩
    · intro text result
      exact Step.ofChecked_eq_ok.trans (reindent_eq_ok (by omega))
    · intro text cause hcause
      exact Step.isRefusal_ofChecked hcause

/-- The chain of these steps can be built. It refuses no text: it gives the text laid out as long as
all numbers stay in range, and otherwise the program ends. -/
theorem mapM_build (hspecs : ∀ spec ∈ specs, ∃ width, spec.LaysOut width) :
    ∃ chain : Chain, specs.mapM build = .ok chain ∧ ∀ tolerates text,
      (∀ result, chain.applyTolerating tolerates text = .ok result ↔
        AllInRange specs text ∧ result = layOutAll specs text) ∧
      ∀ e, chain.applyTolerating tolerates text = .error e → e.cause.isRefusal = false := by
  induction specs with
  | nil =>
    refine ⟨[], rfl, fun tolerates text => ⟨fun result => ?_, fun e => nofun⟩⟩
    simp [Chain.applyTolerating, AllInRange, layOutAll, eq_comm]
  | cons spec rest ih =>
    obtain ⟨chain, hchain, hruns⟩ := ih fun s hs => hspecs s (List.mem_cons_of_mem _ hs)
    obtain ⟨width, hspec⟩ := hspecs spec List.mem_cons_self
    obtain ⟨step, hstep, hok, hrefusal⟩ := build_of_laysOut hspec
    refine ⟨step :: chain, ?_, ?_⟩
    · rw [List.mapM_cons, hstep, hchain]
      rfl
    · intro tolerates text
      rw [Chain.applyTolerating, Step.run]
      cases hfirst : step.transform text with
      | ok next =>
        obtain ⟨hrange, rfl⟩ := (hok text next).1 hfirst
        obtain ⟨hresult, herror⟩ := hruns tolerates (spec.layOut text)
        refine ⟨fun result => (hresult result).trans ?_, herror⟩
        exact and_congr_left fun _ => (and_iff_right hrange).symm
      | error cause =>
        have hcause := hrefusal text cause hfirst
        simp only [hcause, Bool.false_and]
        refine ⟨fun result => ⟨nofun, ?_⟩, ?_⟩
        · rintro ⟨⟨hrange, -⟩, -⟩
          cases hfirst.symm.trans ((hok text _).2 ⟨hrange, rfl⟩)
        · rintro e ⟨⟩
          exact hcause

end StepSpec

end StableFormat
