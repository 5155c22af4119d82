import Mathlib.Data.List.Forall2
import StableFormat.Proofs.Step.Layout

/-!
# Proofs: indentation and columns

Making indentation anew keeps the column of every line and all that stands behind its blanks. The
blanks themselves come to depend on nothing but the column, and so it does not matter how the line was
indented before. Only a line that starts so far to the right that its column has more than 64 bits, or
more blanks than a text can have, is an obstacle.
-/

namespace StableFormat

open Text Builtin

variable {style : IndentStyle} {width column : ℕ} {line : List Char} {text result : String}

/-- Blanks as a style wants them: spaces only, or tabs and then too few spaces to reach the next tab
stop. -/
def IsStyled : IndentStyle → (width : ℕ) → List Char → Prop
  | .spaces, _, run => ∃ spaces, run = List.replicate spaces ' '
  | .tabs, width, run =>
    ∃ tabs spaces, spaces < width ∧ run = List.replicate tabs '\t' ++ List.replicate spaces ' '

theorem isStyled_indentation (hwidth : 0 < width) (style : IndentStyle) (column : ℕ) :
    IsStyled style width (indentation style width column) := by
  cases style with
  | spaces => exact ⟨column, rfl⟩
  | tabs => exact ⟨column / width, column % width, Nat.mod_lt column hwidth, rfl⟩

/-- No line is emptied: the blanks that are left reach the same column. -/
theorem reindentLine_eq_nil_iff (style : IndentStyle) (hwidth : 0 < width) (line : List Char) :
    reindentLine style width line = [] ↔ line = [] := by
  constructor
  · intro hnil
    have hcolumn := startColumn_reindentLine style hwidth line
    have hrest := dropWhile_reindentLine style width line
    rw [hnil] at hcolumn hrest
    have hlength : (line.takeWhile isBlank).length ≤ startColumn width line := by
      have hle := add_length_le_columnFrom hwidth 0 (line.takeWhile isBlank)
      rwa [Nat.zero_add] at hle
    have hlead : line.takeWhile isBlank = [] := by
      apply List.eq_nil_of_length_eq_zero
      have hzero : startColumn width [] = 0 := rfl
      omega
    rw [← List.takeWhile_append_dropWhile (p := isBlank) (l := line), hlead, ← hrest]
    rfl
  · rintro rfl
    exact (replacesBlanks_indentation style width).replaceLead_nil

theorem newline_mem_of_reindentLine (style : IndentStyle) (width : ℕ) (line : List Char)
    (h : '\n' ∈ reindentLine style width line) : '\n' ∈ line :=
  ((changesBlanks_reindent style width).mem_iff isBlank_newline line).1 h

theorem startColumns_reindented (style : IndentStyle) (hwidth : 0 < width) (text : String) :
    startColumns width (reindented style width text) = startColumns width text := by
  rw [startColumns, toList_reindented, splitAtChar_mapLines (newline_mem_of_reindentLine style width),
    List.map_map]
  exact List.map_congr_left fun line _ => startColumn_reindentLine style hwidth line

/-- In every text that can be indented anew with tab stops every `width` columns, this keeps the lines
in number and all that stands behind their blanks. Each line starts at the column where it started;
its blanks are as the style wants them, and depend on that column alone. So a second time changes
nothing, and how the text was indented before, in whatever style, makes no difference. A text can be
indented anew exactly if every line starts at a column that has 64 bits and can be reached with less
than `2 ^ 63` blanks, and so always if no line starts at the column `2 ^ 63` or behind it. -/
theorem reindent_keeps_columns (style : IndentStyle) {width : ℕ} (hwidth : 0 < width) :
    (∀ text, (∃ result, reindent style width text = .ok result) ↔
      ∀ column ∈ startColumns width text, style.Fits width column) ∧
    (∀ text, (∀ column ∈ startColumns width text, column < 2 ^ 63) →
      ∃ result, reindent style width text = .ok result) ∧
    (∃ made : ℕ → List Char, ∀ text result, reindent style width text = .ok result →
      List.Forall₂
        (fun line line' =>
          line'.dropWhile isBlank = line.dropWhile isBlank ∧
          startColumn width line' = startColumn width line ∧
          IsStyled style width (line'.takeWhile isBlank) ∧
          line'.takeWhile isBlank = made (startColumn width line))
        (splitAtChar '\n' text.toList)
        (splitAtChar '\n' result.toList)) ∧
    (∀ text result, reindent style width text = .ok result →
      (linesOf result).length = (linesOf text).length) ∧
    (∀ text result, reindent style width text = .ok result →
      reindent style width result = .ok result) ∧
    ∀ style' text result, reindent style' width text = .ok result →
      ∀ final, reindent style width result = .ok final ↔ reindent style width text = .ok final := by
  have hbreaks := newline_mem_of_reindentLine style width
  have hlast : ∀ style' text result, reindent style' width text = .ok result →
      ∀ final, reindent style width result = .ok final ↔ reindent style width text = .ok final := by
    intro style' text result hresult final
    obtain ⟨-, rfl⟩ := (reindent_eq_ok hwidth).1 hresult
    rw [reindent_eq_ok hwidth, reindent_eq_ok hwidth, startColumns_reindented style' hwidth,
      reindented_reindented style style' hwidth]
  have hexists : ∀ text, (∃ result, reindent style width text = .ok result) ↔
      ∀ column ∈ startColumns width text, style.Fits width column := by
    intro text
    simp [reindent_eq_ok hwidth]
  refine ⟨hexists, ?_, ⟨indentation style width, ?_⟩, ?_, ?_, hlast⟩
  · intro text hcolumns
    exact (hexists text).2 fun column hcolumn => fits_of_lt (hcolumns column hcolumn)
  · intro text result hresult
    obtain ⟨-, rfl⟩ := (reindent_eq_ok hwidth).1 hresult
    rw [toList_reindented, splitAtChar_mapLines hbreaks, List.forall₂_map_right_iff,
      List.forall₂_same]
    intro line _
    have hlead := takeWhile_reindentLine style width line
    refine ⟨dropWhile_reindentLine style width line, startColumn_reindentLine style hwidth line, ?_,
      hlead⟩
    rw [hlead]
    exact isStyled_indentation hwidth style _
  · intro text result hresult
    obtain ⟨-, rfl⟩ := (reindent_eq_ok hwidth).1 hresult
    rw [linesOf, linesOf, List.length_map, List.length_map, toList_reindented]
    exact length_terminatedLines_mapLines hbreaks (reindentLine_eq_nil_iff style hwidth) _
  · intro text result hresult
    exact (hlast style text result hresult result).2 hresult

/-- Spaces that a tab swallows, a line of blanks and a carriage return: the columns are 4, 5 and 6. -/
theorem reindent_keeps_columns_mixed :
    0 < 4 ∧ reindent .tabs 4 "  \tx\n \t \n      y\r" = .ok "\tx\n\t \n\t  y\r" ∧
      reindent .spaces 4 "\tx\n\t \n\t  y\r" = .ok "    x\n     \n      y\r" ∧
      reindent .tabs 4 "    x\n     \n      y\r" = .ok "\tx\n\t \n\t  y\r" ∧
      (linesOf "\tx\n\t \n\t  y\r").length = (linesOf "  \tx\n \t \n      y\r").length := by
  have hwidth : 0 < 4 := by decide
  have htabs : reindent .tabs 4 "  \tx\n \t \n      y\r" = .ok "\tx\n\t \n\t  y\r" := by cbv
  have hspaces : reindent .spaces 4 "\tx\n\t \n\t  y\r" = .ok "    x\n     \n      y\r" := by cbv
  obtain ⟨-, -, -, hlines, hagain, hafter⟩ := reindent_keeps_columns .tabs hwidth
  refine ⟨hwidth, htabs, hspaces, ?_, hlines _ _ htabs⟩
  rw [hafter _ _ _ hspaces]
  exact hagain _ _ htabs

/-- The second of two tabs leads to a column with 64 bits, but no text has so many spaces; the fourth of
four tabs, with other tab stops, leads to a column with 65 bits. -/
theorem reindent_out_of_range :
    reindent .spaces (2 ^ 63 - 1) "\t\tx" = .error (.capacity (2 ^ 64 - 2)) ∧
      reindent .tabs (2 ^ 62) "\t\t\t\tx" = .error (.sum (3 * 2 ^ 62) (2 ^ 62)) := by
  constructor <;> cbv

end StableFormat
