import Mathlib.Data.List.TakeWhile
import StableFormat.Proofs.Text.LineMap
import StableFormat.Text.Scan

/-!
# Proofs: blanks at the start and at the end of lines

Blanks are replaced in one scan of the text, by a rule that looks at the characters around a
position. What comes out is the text with one function applied to each of its lines.
-/

namespace StableFormat.Text

variable {b c : Char} {cs lead line rest tail : List Char} {p : Char → Bool}
  {f : List Char → List Char} {before : Option Char} {ε : Type}
  {fM : List Char → Except ε (List Char)}

/-! ## Blanks at the start of a line -/

/-- The line with its blanks at the start replaced. -/
def replaceLead (f : List Char → List Char) (line : List Char) : List Char :=
  f (line.takeWhile isBlank) ++ line.dropWhile isBlank

/-- The line with its blanks at the start replaced, if they can be. -/
def replaceLeadM (fM : List Char → Except ε (List Char)) (line : List Char) :
    Except ε (List Char) :=
  (· ++ line.dropWhile isBlank) <$> fM (line.takeWhile isBlank)

theorem exists_lead (line : List Char) :
    ∃ lead rest, line = lead ++ rest ∧ (∀ c ∈ lead, isBlank c = true) ∧
      ∀ c ∈ rest.head?, isBlank c = false := by
  refine ⟨line.takeWhile isBlank, line.dropWhile isBlank, by simp, ?_, ?_⟩
  · intro c hc
    exact List.mem_takeWhile_imp hc
  · intro c hc
    have hnot := List.head?_dropWhile_not isBlank line
    rw [hc] at hnot
    exact hnot

theorem takeWhile_lead (hlead : ∀ c ∈ lead, isBlank c = true)
    (hrest : ∀ c ∈ rest.head?, isBlank c = false) :
    (lead ++ rest).takeWhile isBlank = lead := by
  rw [List.takeWhile_append_of_pos hlead]
  cases rest with
  | nil => simp
  | cons c rest => simp [hrest c rfl]

theorem replaceLead_append (hlead : ∀ c ∈ lead, isBlank c = true)
    (hrest : ∀ c ∈ rest.head?, isBlank c = false) :
    replaceLead f (lead ++ rest) = f lead ++ rest := by
  rw [replaceLead, takeWhile_lead hlead hrest, List.dropWhile_append_of_pos hlead]
  cases rest with
  | nil => simp
  | cons c rest => simp [hrest c rfl]

theorem replaceLeadM_append (hlead : ∀ c ∈ lead, isBlank c = true)
    (hrest : ∀ c ∈ rest.head?, isBlank c = false) :
    replaceLeadM fM (lead ++ rest) = (· ++ rest) <$> fM lead := by
  rw [replaceLeadM, takeWhile_lead hlead hrest, List.dropWhile_append_of_pos hlead]
  cases rest with
  | nil => rfl
  | cons c rest => rw [List.dropWhile_cons_of_neg (by simp [hrest c rfl])]

/-- What is left of the rest of a line starts like the rest. -/
theorem head?_dropTrailing (hrest : ∀ c ∈ rest.head?, isBlank c = false) :
    ∀ c ∈ (dropTrailing p rest).head?, isBlank c = false := by
  intro c hc
  refine hrest c ?_
  obtain ⟨dropped, hdropped⟩ := dropTrailing_isPrefix p rest
  rw [← hdropped, List.head?_append, hc]
  rfl

/-- Blanks at the start of a line are replaced by others, and none is put before an empty line. -/
structure ReplacesBlanks (f : List Char → List Char) : Prop where
  nil : f [] = []
  isBlank : ∀ run, ∀ c ∈ f run, isBlank c = true

namespace ReplacesBlanks

variable (hf : ReplacesBlanks f)
include hf

theorem replaceLead_nil : replaceLead f [] = [] := by
  rw [replaceLead]
  simpa using hf.nil

/-- A class of characters to be dropped at the end of lines, with the blanks among them, can be
dropped before or after the blanks at their start are replaced. -/
theorem keepsEnd (hp : ∀ c, Text.isBlank c = true → p c = true) :
    KeepsEnd p (replaceLead f) where
  nil := hf.replaceLead_nil
  eq_nil line h := by
    obtain ⟨lead, rest, rfl, hlead, hrest⟩ := exists_lead line
    rw [replaceLead_append hlead hrest, List.append_eq_nil_iff] at h
    rw [h.2, List.append_nil, dropTrailing_eq_nil_iff]
    exact fun c hc => hp c (hlead c hc)
  dropTrailing_comm line := by
    obtain ⟨lead, rest, rfl, hlead, hrest⟩ := exists_lead line
    have hdropped {run : List Char} (hrun : ∀ c ∈ run, Text.isBlank c = true) :
        dropTrailing p run = [] :=
      dropTrailing_eq_nil_iff.2 fun c hc => hp c (hrun c hc)
    rw [replaceLead_append hlead hrest]
    by_cases hnil : dropTrailing p rest = []
    · have hall := dropTrailing_eq_nil_iff.1 hnil
      rw [dropTrailing_append_of_all hall, dropTrailing_append_of_all hall, hdropped hlead,
        hdropped (hf.isBlank lead), hf.replaceLead_nil]
    · rw [dropTrailing_append_of_ne_nil hnil, dropTrailing_append_of_ne_nil hnil,
        replaceLead_append hlead (head?_dropTrailing hrest)]

theorem takeWhile_replaceLead (line : List Char) :
    (replaceLead f line).takeWhile Text.isBlank = f (line.takeWhile Text.isBlank) := by
  obtain ⟨lead, rest, rfl, hlead, hrest⟩ := exists_lead line
  rw [replaceLead_append hlead hrest, takeWhile_lead (hf.isBlank lead) hrest,
    takeWhile_lead hlead hrest]

theorem dropWhile_replaceLead (line : List Char) :
    (replaceLead f line).dropWhile Text.isBlank = line.dropWhile Text.isBlank := by
  have hline := List.takeWhile_append_dropWhile (p := Text.isBlank) (l := replaceLead f line)
  rw [hf.takeWhile_replaceLead] at hline
  exact List.append_cancel_left hline

/-- Of two replacements the later one counts, but for what it makes of the earlier one's blanks. -/
theorem replaceLead_replaceLead (g : List Char → List Char) (line : List Char) :
    replaceLead g (replaceLead f line) = replaceLead (g ∘ f) line := by
  obtain ⟨lead, rest, rfl, hlead, hrest⟩ := exists_lead line
  rw [replaceLead_append hlead hrest, replaceLead_append (hf.isBlank lead) hrest,
    replaceLead_append hlead hrest]
  rfl

theorem mem_replaceLead_iff (hc : Text.isBlank c = false) (line : List Char) :
    c ∈ replaceLead f line ↔ c ∈ line := by
  obtain ⟨lead, rest, rfl, hlead, hrest⟩ := exists_lead line
  have hnot {run : List Char} (hrun : ∀ d ∈ run, Text.isBlank d = true) : c ∉ run := by
    intro hmem
    rw [hrun c hmem] at hc
    cases hc
  rw [replaceLead_append hlead hrest, List.mem_append, List.mem_append]
  simp [hnot hlead, hnot (hf.isBlank lead)]

end ReplacesBlanks

/-! ## The scan of a text -/

theorem isBlank_newline : isBlank '\n' = false := by decide

theorem ne_newline_of_isBlank (hc : isBlank c = true) : c ≠ '\n' := by
  rintro rfl
  cases isBlank_newline.symm.trans hc

theorem atLineEnd_nil : atLineEnd [] = true := rfl

theorem atLineEnd_newline : atLineEnd ('\n' :: rest) = true := by simp [atLineEnd]

theorem replaceMatches_zero {rule : Rule} (h : rule before (c :: cs) = 0) :
    replaceMatches rule f before (c :: cs) = c :: replaceMatches rule f (some c) cs := by
  rw [replaceMatches, h]

theorem replaceMatches_succ {rule : Rule} {n : ℕ} (h : rule before (c :: cs) = n + 1) :
    replaceMatches rule f before (c :: cs) =
      f (c :: cs.take n) ++
        replaceMatches rule f (some ((cs.take n).getLast?.getD c)) (cs.drop n) := by
  rw [replaceMatches, h]

theorem head?_of_atLineEnd (htail : atLineEnd tail = true) : ∀ c ∈ tail.head?, isBlank c = false := by
  cases tail with
  | nil => simp
  | cons c tail =>
    have hc : c = '\n' := by simpa [atLineEnd] using htail
    simpa [hc] using isBlank_newline

theorem trailingBlanks_of_all (hline : ∀ c ∈ line, isBlank c = true)
    (htail : atLineEnd tail = true) : trailingBlanks before (line ++ tail) = line.length := by
  simp only [trailingBlanks, takeWhile_lead hline (head?_of_atLineEnd htail), List.drop_left, htail,
    if_true]

theorem trailingBlanks_eq (before : Option Char) (cs : List Char) :
    trailingBlanks before cs =
      if atLineEnd (cs.dropWhile isBlank) then (cs.takeWhile isBlank).length else 0 := by
  have hdrop : (cs.takeWhile isBlank ++ cs.dropWhile isBlank).drop (cs.takeWhile isBlank).length =
      cs.dropWhile isBlank := List.drop_left
  rw [List.takeWhile_append_dropWhile] at hdrop
  simp only [trailingBlanks, hdrop]

theorem trailingBlanks_le_length (before : Option Char) (cs : List Char) :
    trailingBlanks before cs ≤ cs.length := by
  rw [trailingBlanks_eq]
  split
  · exact (List.takeWhile_prefix isBlank).length_le
  · exact Nat.zero_le _

/-- A run of blanks with something behind it on its line is no match, and neither is a part of it. -/
theorem trailingBlanks_of_ne_nil (hline : '\n' ∉ line) (hne : dropTrailing isBlank line ≠ []) :
    trailingBlanks before (line ++ tail) = 0 := by
  obtain ⟨lead, rest, rfl, hlead, hrest⟩ := exists_lead line
  cases rest with
  | nil =>
    rw [List.append_nil] at hne
    exact absurd (dropTrailing_eq_nil_iff.2 hlead) hne
  | cons d rest =>
    have hd : d ≠ '\n' := by
      rintro rfl
      exact hline (by simp)
    have hend : atLineEnd (d :: rest ++ tail) = false := by simp [atLineEnd, hd]
    have hrun : (lead ++ (d :: rest ++ tail)).takeWhile isBlank = lead :=
      takeWhile_lead hlead hrest
    rw [List.append_assoc, trailingBlanks, hrun, List.drop_left, hend]
    rfl

/-- The rule for blanks at line ends does not look back. -/
theorem replaceMatches_trailingBlanks_before (before before' : Option Char) (cs : List Char) :
    replaceMatches trailingBlanks f before cs = replaceMatches trailingBlanks f before' cs := by
  cases cs with
  | nil => rw [replaceMatches, replaceMatches]
  | cons c cs => rw [replaceMatches, replaceMatches, trailingBlanks, trailingBlanks]

/-- On its way along a line, the scan for blanks at line ends drops those at the end. -/
theorem replaceMatches_trailingBlanks_line (before : Option Char) (hline : '\n' ∉ line)
    (htail : atLineEnd tail = true) :
    replaceMatches trailingBlanks (fun _ => []) before (line ++ tail) =
      dropTrailing isBlank line ++ replaceMatches trailingBlanks (fun _ => []) none tail := by
  induction line generalizing before with
  | nil => exact replaceMatches_trailingBlanks_before _ _ tail
  | cons c line ih =>
    by_cases hnil : dropTrailing isBlank (c :: line) = []
    · have hrule : trailingBlanks before (c :: (line ++ tail)) = line.length + 1 :=
        trailingBlanks_of_all (dropTrailing_eq_nil_iff.1 hnil) htail
      rw [List.cons_append, replaceMatches_succ hrule, List.drop_left, hnil]
      exact replaceMatches_trailingBlanks_before _ _ tail
    · have hrule : trailingBlanks before (c :: (line ++ tail)) = 0 :=
        trailingBlanks_of_ne_nil hline hnil
      have hkept : dropTrailing isBlank (c :: line) = c :: dropTrailing isBlank line := by
        rw [dropTrailing_cons] at hnil ⊢
        split
        · next hc => exact absurd (if_pos hc) hnil
        · rfl
      rw [List.cons_append, replaceMatches_zero hrule, ih _ (List.not_mem_of_not_mem_cons hline), hkept,
        List.cons_append]

/-- No blanks are left at the end of any line, and nothing else is changed. -/
theorem replaceMatches_trailingBlanks (before : Option Char) (cs : List Char) :
    replaceMatches trailingBlanks (fun _ => []) before cs = mapLines (dropTrailing isBlank) cs := by
  induction cs using line_induction generalizing before with
  | last line hline =>
    have hscan := replaceMatches_trailingBlanks_line before hline atLineEnd_nil
    rw [List.append_nil, replaceMatches, List.append_nil] at hscan
    rw [hscan, mapLines_line hline]
  | newline line rest hline ih =>
    have hrule : trailingBlanks none ('\n' :: rest) = 0 := by simp [trailingBlanks, isBlank_newline]
    rw [replaceMatches_trailingBlanks_line before hline atLineEnd_newline, replaceMatches_zero hrule,
      ih, mapLines_newline hline]

theorem replaceMatchesM_zero {rule : Rule} (h : rule before (c :: cs) = 0) :
    replaceMatchesM rule fM before (c :: cs) =
      (c :: ·) <$> replaceMatchesM rule fM (some c) cs := by
  rw [replaceMatchesM, h]
  exact bind_pure_comp _ _

theorem replaceMatchesM_succ {rule : Rule} {n : ℕ} (h : rule before (c :: cs) = n + 1) :
    replaceMatchesM rule fM before (c :: cs) = do
      let replaced ← fM (c :: cs.take n)
      let rest ← replaceMatchesM rule fM (some ((cs.take n).getLast?.getD c)) (cs.drop n)
      return replaced ++ rest := by
  rw [replaceMatchesM, h]

/-- At the end of a line there is no blank to be found, wherever the line starts. -/
theorem replaceMatchesM_leadingBlanks_atLineEnd (before : Option Char)
    (htail : atLineEnd tail = true) :
    replaceMatchesM leadingBlanks fM before tail = replaceMatchesM leadingBlanks fM none tail := by
  cases tail with
  | nil => rw [replaceMatchesM, replaceMatchesM]
  | cons c tail =>
    have hrule (before : Option Char) : leadingBlanks before (c :: tail) = 0 := by
      simp [leadingBlanks, head?_of_atLineEnd htail c rfl]
    rw [replaceMatchesM_zero (hrule _), replaceMatchesM_zero (hrule _)]

/-- Inside a line, the scan for blanks at line starts finds nothing. -/
theorem replaceMatchesM_leadingBlanks_inside (hb : b ≠ '\n') (hline : '\n' ∉ line)
    (htail : atLineEnd tail = true) :
    replaceMatchesM leadingBlanks fM (some b) (line ++ tail) =
      (line ++ ·) <$> replaceMatchesM leadingBlanks fM none tail := by
  induction line generalizing b with
  | nil => exact (replaceMatchesM_leadingBlanks_atLineEnd _ htail).trans (id_map' _).symm
  | cons c line ih =>
    have hrule : leadingBlanks (some b) (c :: (line ++ tail)) = 0 := by
      simp [leadingBlanks, atLineStart, hb]
    have hc : c ≠ '\n' := Ne.symm (List.ne_of_not_mem_cons hline)
    rw [List.cons_append, replaceMatchesM_zero hrule, ih hc (List.not_mem_of_not_mem_cons hline),
      Functor.map_map]
    rfl

/-- At the start of a line, the scan for blanks replaces those that the line starts with. -/
theorem replaceMatchesM_leadingBlanks_line (hf : fM [] = .ok []) (hline : '\n' ∉ line)
    (htail : atLineEnd tail = true) (hbefore : atLineStart before = true) :
    replaceMatchesM leadingBlanks fM before (line ++ tail) = do
      let first ← replaceLeadM fM line
      let others ← replaceMatchesM leadingBlanks fM none tail
      return first ++ others := by
  obtain ⟨lead, rest, rfl, hlead, hrest⟩ := exists_lead line
  have hrestLine : '\n' ∉ rest := fun hmem => hline (List.mem_append_right _ hmem)
  have hhead : ∀ c ∈ (rest ++ tail).head?, isBlank c = false := by
    cases rest with
    | nil => exact head?_of_atLineEnd htail
    | cons c rest => exact hrest
  have hrule : leadingBlanks before (lead ++ (rest ++ tail)) = lead.length := by
    simp only [leadingBlanks, hbefore, if_true, takeWhile_lead hlead hhead]
  rw [replaceLeadM_append hlead hrest, List.append_assoc]
  cases lead with
  | nil =>
    have hscan : replaceMatchesM leadingBlanks fM before (rest ++ tail) =
        (rest ++ ·) <$> replaceMatchesM leadingBlanks fM none tail := by
      cases rest with
      | nil => exact (replaceMatchesM_leadingBlanks_atLineEnd _ htail).trans (id_map' _).symm
      | cons c rest =>
        have hc : c ≠ '\n' := Ne.symm (List.ne_of_not_mem_cons hrestLine)
        have hnone : leadingBlanks before (c :: (rest ++ tail)) = 0 := hrule
        have hinside := List.not_mem_of_not_mem_cons hrestLine
        rw [List.cons_append, replaceMatchesM_zero hnone,
          replaceMatchesM_leadingBlanks_inside hc hinside htail, Functor.map_map]
        rfl
    rw [List.nil_append, hscan, hf]
    exact (bind_pure_comp _ _).symm
  | cons c lead =>
    have hlast : (lead.getLast?.getD c) ≠ '\n' := by
      intro heq
      have hmem : lead.getLast?.getD c ∈ c :: lead := by
        cases hlast : lead.getLast? with
        | none => exact List.mem_cons_self
        | some d => exact List.mem_cons_of_mem _ (List.mem_of_getLast? hlast)
      have hblank := hlead _ hmem
      rw [heq, isBlank_newline] at hblank
      cases hblank
    have hrun : leadingBlanks before (c :: (lead ++ (rest ++ tail))) = lead.length + 1 := hrule
    rw [List.cons_append, replaceMatchesM_succ hrun, List.take_left, List.drop_left,
      replaceMatchesM_leadingBlanks_inside hlast hrestLine htail]
    cases fM (c :: lead) with
    | error e => rfl
    | ok replaced =>
      cases replaceMatchesM leadingBlanks fM none tail with
      | error e => rfl
      | ok others => exact congrArg Except.ok (List.append_assoc _ _ _).symm

/-- The blanks at the start of each line are replaced, and nothing else is changed. -/
theorem replaceMatchesM_leadingBlanks (hf : fM [] = .ok []) (hbefore : atLineStart before = true)
    (cs : List Char) :
    replaceMatchesM leadingBlanks fM before cs = mapLinesM (replaceLeadM fM) cs := by
  induction cs using line_induction generalizing before with
  | last line hline =>
    have hscan := replaceMatchesM_leadingBlanks_line hf hline atLineEnd_nil hbefore
    rw [List.append_nil, replaceMatchesM] at hscan
    rw [hscan, mapLinesM_line hline]
    cases replaceLeadM fM line with
    | error e => rfl
    | ok out => exact congrArg Except.ok (List.append_nil out)
  | newline line rest hline ih =>
    have hrule : leadingBlanks none ('\n' :: rest) = 0 := by simp [leadingBlanks, isBlank_newline]
    have hfeed : atLineStart (some '\n') = true := rfl
    rw [replaceMatchesM_leadingBlanks_line hf hline atLineEnd_newline hbefore,
      replaceMatchesM_zero hrule, ih hfeed, mapLinesM_newline hline]
    cases replaceLeadM fM line with
    | error e => rfl
    | ok first =>
      cases mapLinesM (replaceLeadM fM) rest with
      | error e => rfl
      | ok others => rfl

end StableFormat.Text
