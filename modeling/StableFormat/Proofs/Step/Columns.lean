import StableFormat.Proofs.Text.Blanks
import StableFormat.Step.Builtin

/-!
# Proofs: columns

On the screen, a line starts at the column that the blanks before it lead to, and this column depends
on where the tab stops are. Columns are natural numbers here; indentation is made with numbers of 64
bits. It can be made anew where every line starts at a column that such a number can hold, and that a
text has room for.
-/

namespace StableFormat

open Text Builtin

variable {style : IndentStyle} {width column n k : ℕ} {c : Char} {line run out : List Char}
  {text result : String}

/-! ## Tab stops -/

/-- The first tab stop behind a column, when there is one every `width` columns. -/
def nextStop (width column : ℕ) : ℕ :=
  (column / width + 1) * width

/-- The column that a run of blanks leads to from another column. -/
def columnFrom (width : ℕ) : (column : ℕ) → List Char → ℕ
  | column, [] => column
  | column, c :: run =>
    columnFrom width (if c = '\t' then nextStop width column else column + 1) run

theorem lt_nextStop (hwidth : 0 < width) (column : ℕ) : column < nextStop width column := by
  have hlt := Nat.lt_mul_div_succ column hwidth
  rwa [Nat.mul_comm] at hlt

theorem add_step_eq (hwidth : 0 < width) (column : ℕ) (c : Char) :
    column + (if c = '\t' then width - column % width else 1) =
      if c = '\t' then nextStop width column else column + 1 := by
  by_cases hc : c = '\t'
  · have hdivision := Nat.div_add_mod' column width
    have hrest := Nat.mod_lt column hwidth
    rw [if_pos hc, if_pos hc, nextStop, Nat.add_mul, Nat.one_mul]
    omega
  · rw [if_neg hc, if_neg hc]

/-- Every blank leads on by one column at least. -/
theorem add_length_le_columnFrom (hwidth : 0 < width) (column : ℕ) (run : List Char) :
    column + run.length ≤ columnFrom width column run := by
  induction run generalizing column with
  | nil => exact le_rfl
  | cons c run ih =>
    have hstop := lt_nextStop hwidth column
    rw [columnFrom, List.length_cons]
    by_cases hc : c = '\t'
    · have hrest := ih (nextStop width column)
      rw [if_pos hc]
      omega
    · have hrest := ih (column + 1)
      rw [if_neg hc]
      omega

/-- The columns of a run only grow, so they all have 64 bits if the last one has. -/
theorem foldlM_advance_eq_ok (hwidth : 0 < width) (hcolumn : column < 2 ^ 64) :
    run.foldlM (advance width) column = .ok n ↔ columnFrom width column run = n ∧ n < 2 ^ 64 := by
  induction run generalizing column with
  | nil =>
    simp only [List.foldlM_nil, columnFrom]
    constructor
    · rintro ⟨⟩
      exact ⟨rfl, hcolumn⟩
    · rintro ⟨rfl, -⟩
      rfl
  | cons c run ih =>
    rw [List.foldlM_cons, bind_eq_ok, columnFrom, ← add_step_eq hwidth]
    simp only [advance, Checked.add_eq_ok]
    constructor
    · rintro ⟨next, ⟨rfl, hnext⟩, hrest⟩
      exact (ih hnext).1 hrest
    · rintro ⟨hn, hlt⟩
      have hle := add_length_le_columnFrom hwidth
        (column + if c = '\t' then width - column % width else 1) run
      have hnext : column + (if c = '\t' then width - column % width else 1) < 2 ^ 64 := by omega
      exact ⟨_, ⟨rfl, hnext⟩, (ih hnext).2 ⟨hn, hlt⟩⟩

theorem columnAfter_eq_ok (hwidth : 0 < width) :
    columnAfter width run = .ok column ↔ columnFrom width 0 run = column ∧ column < 2 ^ 64 :=
  foldlM_advance_eq_ok hwidth (by decide)

theorem columnFrom_append (width column : ℕ) (run run' : List Char) :
    columnFrom width column (run ++ run') = columnFrom width (columnFrom width column run) run' := by
  induction run generalizing column with
  | nil => rfl
  | cons c run ih => exact ih _

theorem columnFrom_spaces (width column n : ℕ) :
    columnFrom width column (List.replicate n ' ') = column + n := by
  induction n generalizing column with
  | zero => rfl
  | succ n ih =>
    rw [List.replicate_succ, columnFrom, if_neg (by decide), ih]
    omega

theorem columnFrom_tabs (hwidth : 0 < width) (k n : ℕ) :
    columnFrom width (k * width) (List.replicate n '\t') = (k + n) * width := by
  induction n generalizing k with
  | zero => rfl
  | succ n ih =>
    have hstop : nextStop width (k * width) = (k + 1) * width := by
      rw [nextStop, Nat.mul_div_cancel _ hwidth]
    rw [List.replicate_succ, columnFrom, if_pos rfl, hstop, ih, Nat.add_right_comm, Nat.add_assoc]

/-! ## Indentation -/

/-- Indentation reaches the column that it is made for. -/
theorem columnFrom_indentation (style : IndentStyle) (hwidth : 0 < width) (column : ℕ) :
    columnFrom width 0 (indentation style width column) = column := by
  cases style with
  | spaces => exact (columnFrom_spaces width 0 column).trans (Nat.zero_add column)
  | tabs =>
    have htabs := columnFrom_tabs hwidth 0 (column / width)
    rw [Nat.zero_mul, Nat.zero_add] at htabs
    simp only [indentation, IndentStyle.counts]
    rw [columnFrom_append, htabs, columnFrom_spaces, Nat.div_add_mod']

theorem isBlank_indentation : ∀ c ∈ indentation style width column, isBlank c = true := by
  intro c hc
  rcases List.mem_append.1 hc with hc | hc
  · rw [List.eq_of_mem_replicate hc]
    rfl
  · rw [List.eq_of_mem_replicate hc]
    rfl

/-- Indentation for a column can be made: the column has 64 bits, and there is a text with so many
blanks. -/
def Builtin.IndentStyle.Fits (style : IndentStyle) (width column : ℕ) : Prop :=
  column < 2 ^ 64 ∧ (style.counts width column).1 + (style.counts width column).2 < 2 ^ 63

instance : Decidable (style.Fits width column) :=
  inferInstanceAs (Decidable (_ ∧ _))

theorem fits_of_lt (h : column < 2 ^ 63) : style.Fits width column := by
  refine ⟨by omega, ?_⟩
  cases style with
  | spaces => simpa [IndentStyle.counts] using h
  | tabs =>
    have hdivision := Nat.div_add_mod column width
    rcases Nat.eq_zero_or_pos width with rfl | hwidth
    · simpa [IndentStyle.counts] using h
    · have hle : column / width ≤ width * (column / width) := Nat.le_mul_of_pos_left _ hwidth
      simp only [IndentStyle.counts]
      omega

theorem reindentRun_eq_ok (hwidth : 0 < width) :
    reindentRun style width run = .ok out ↔ style.Fits width (columnFrom width 0 run) ∧
      out = indentation style width (columnFrom width 0 run) := by
  simp only [reindentRun, bind_eq_ok, columnAfter_eq_ok hwidth]
  constructor
  · rintro ⟨_, ⟨rfl, hcolumn⟩, _, hroom, ⟨⟩⟩
    exact ⟨⟨hcolumn, Checked.reserve_eq_ok.1 hroom⟩, rfl⟩
  · rintro ⟨⟨hcolumn, hroom⟩, rfl⟩
    exact ⟨_, ⟨rfl, hcolumn⟩, (), Checked.reserve_eq_ok.2 hroom, rfl⟩

theorem replacesBlanks_indentation (style : IndentStyle) (width : ℕ) :
    ReplacesBlanks fun run => indentation style width (columnFrom width 0 run) where
  nil := by cases style <;> simp [columnFrom, indentation, IndentStyle.counts]
  isBlank _ := isBlank_indentation

/-! ## Lines -/

/-- The column at which a line starts, behind the longest run of spaces and tabs at its front. -/
def startColumn (width : ℕ) (line : List Char) : ℕ :=
  columnFrom width 0 (line.takeWhile isBlank)

/-- A line with its indentation made anew. -/
def reindentLine (style : IndentStyle) (width : ℕ) : List Char → List Char :=
  replaceLead fun run => indentation style width (columnFrom width 0 run)

theorem replaceLeadM_reindentRun (hwidth : 0 < width) (line out : List Char) :
    replaceLeadM (reindentRun style width) line = .ok out ↔
      style.Fits width (startColumn width line) ∧ out = reindentLine style width line := by
  simp only [replaceLeadM, map_eq_ok, reindentRun_eq_ok hwidth]
  constructor
  · rintro ⟨_, ⟨hfits, rfl⟩, rfl⟩
    exact ⟨hfits, rfl⟩
  · rintro ⟨hfits, rfl⟩
    exact ⟨_, ⟨hfits, rfl⟩, rfl⟩

theorem takeWhile_reindentLine (style : IndentStyle) (width : ℕ) (line : List Char) :
    (reindentLine style width line).takeWhile isBlank =
      indentation style width (startColumn width line) :=
  (replacesBlanks_indentation style width).takeWhile_replaceLead line

theorem dropWhile_reindentLine (style : IndentStyle) (width : ℕ) (line : List Char) :
    (reindentLine style width line).dropWhile isBlank = line.dropWhile isBlank :=
  (replacesBlanks_indentation style width).dropWhile_replaceLead line

theorem startColumn_reindentLine (style : IndentStyle) (hwidth : 0 < width) (line : List Char) :
    startColumn width (reindentLine style width line) = startColumn width line := by
  rw [startColumn, takeWhile_reindentLine, columnFrom_indentation style hwidth]

/-- The indentation that was made last counts. -/
theorem reindentLine_reindentLine (style style' : IndentStyle) (hwidth : 0 < width)
    (line : List Char) :
    reindentLine style width (reindentLine style' width line) = reindentLine style width line := by
  have hlast := (replacesBlanks_indentation style' width).replaceLead_replaceLead
    (fun run => indentation style width (columnFrom width 0 run)) line
  simp only [Function.comp_def, columnFrom_indentation style' hwidth] at hlast
  exact hlast

/-! ## Texts -/

/-- The columns at which the lines of a text start. -/
def startColumns (width : ℕ) (text : String) : List ℕ :=
  (splitAtChar '\n' text.toList).map (startColumn width)

/-- A text with the indentation of every line made anew. -/
def reindented (style : IndentStyle) (width : ℕ) (text : String) : String :=
  String.ofList (mapLines (reindentLine style width) text.toList)

theorem toList_reindented (style : IndentStyle) (width : ℕ) (text : String) :
    (reindented style width text).toList = mapLines (reindentLine style width) text.toList :=
  String.toList_ofList

/-- Indentation is made anew exactly if every line of the text starts at a column for which it can be
made. -/
theorem reindent_eq_ok (hwidth : 0 < width) :
    reindent style width text = .ok result ↔
      (∀ column ∈ startColumns width text, style.Fits width column) ∧
        result = reindented style width text := by
  have hnil : reindentRun style width [] = .ok [] := by
    have hzero := (replacesBlanks_indentation style width).nil
    rw [reindentRun_eq_ok hwidth]
    exact ⟨fits_of_lt (Nat.two_pow_pos 63), hzero.symm⟩
  have hstart : atLineStart none = true := rfl
  have hlines : ∀ line out, replaceLeadM (reindentRun style width) line = .ok out ↔
      style.Fits width (startColumn width line) ∧ out = reindentLine style width line :=
    replaceLeadM_reindentRun hwidth
  simp only [reindent, bind_eq_ok, replaceMatchesM_leadingBlanks hnil hstart,
    mapLinesM_eq_ok hlines, startColumns, List.forall_mem_map]
  constructor
  · rintro ⟨_, ⟨hfits, rfl⟩, ⟨⟩⟩
    exact ⟨hfits, rfl⟩
  · rintro ⟨hfits, rfl⟩
    exact ⟨_, ⟨hfits, rfl⟩, rfl⟩

end StableFormat
