import StableFormat.Pattern.Basic
import StableFormat.Proofs.Text.Leftmost

/-!
# Proofs: the pattern for blanks at line ends

The program of `[ \t]+$` has at most one thread under way, which has been inside the repetition since
the first blank of a run. Where the run comes to the end of its line the pattern matches; elsewhere
the thread is lost, and no thread that would have started later in the run does better. So replacing
all matches by nothing is the scan that drops blanks at line ends.
-/

namespace StableFormat.Pattern

open Text

variable {before : Option Char} {position first n : ℕ} {c : Char} {cs run behind : List Char}
  {slots : Slots}

/-! ## The program -/

/-- The class of spaces and tabs. -/
def blankClass : CharClass :=
  .union (.union .none (.range ' ' ' ')) (.range '\t' '\t')

/-- One blank or more, and the end of a line. -/
def blanksExpr : Expr :=
  .concat (.rep (.chars blankClass) 1 none true) (.anchor .lineEnd)

/-- The program for blanks at line ends: from state `4` it takes a blank, and in state `3` it prefers
another one to the end of the line. -/
def blanksProgram : Program :=
  { code := #[.accept, .mark 1 0, .check .lineEnd 1, .fork 4 2, .take blankClass 3, .mark 0 4]
    start := 5
    slots := 2 }

theorem compile_blanks : Pattern.compile "[ \\t]+$" = .ok ⟨blanksProgram, []⟩ := by
  have hread : Expr.read { multiLine := true } "[ \\t]+$" = .ok (blanksExpr, []) := rfl
  have hsize : blanksExpr.size ≤ maxSize := by decide
  rw [Pattern.compile, hread]
  exact if_pos hsize

theorem contains_blankClass (c : Char) : blankClass.contains c = isBlank c := by
  have hrange (d : Char) : (decide (d ≤ c) && decide (c ≤ d)) = decide (c = d) := by
    rw [← Bool.decide_and, decide_eq_decide]
    exact ⟨fun h => Char.le_antisymm h.2 h.1, by rintro rfl; exact ⟨Char.le_refl _, Char.le_refl _⟩⟩
  simp only [blankClass, CharClass.contains, hrange, isBlank, Bool.false_or]

/-! ## One place of the text -/

/-- The thread that has been in the repetition since the place `first`. -/
def inRun (first : ℕ) : Thread :=
  ⟨3, #[some first, none]⟩

/-- The thread that waits for a blank. -/
def awaitsBlank (first : ℕ) : Thread :=
  ⟨4, #[some first, none]⟩

open Program in
theorem settle_fresh (place : Program.Place) :
    settle blanksProgram place [] none = ([awaitsBlank place.position], none) := by
  simp [settle, blanksProgram, follow, successors, waits, beforeAccept, awaitsBlank]
  rfl

open Program in
/-- A fresh thread is dropped where one is under way. -/
theorem settle_inRun (place : Program.Place) (first : ℕ) :
    settle blanksProgram place [inRun first] none =
      ([awaitsBlank first],
        if Anchor.lineEnd.holds place.before place.after then
          some #[some first, some place.position] else none) := by
  by_cases h : Anchor.lineEnd.holds place.before place.after = true
  · simp [settle, blanksProgram, follow, successors, waits, beforeAccept, awaitsBlank, inRun, h]
  · simp [settle, blanksProgram, follow, successors, waits, beforeAccept, awaitsBlank, inRun, h]

open Program in
theorem settle_matched (place : Program.Place) (slots : Slots) :
    settle blanksProgram place [] (some slots) = ([], some slots) := by
  simp [settle, blanksProgram, follow, beforeAccept]

theorem taking_awaitsBlank (first : ℕ) (c : Char) :
    Program.taking blanksProgram.code c [awaitsBlank first] =
      if isBlank c then [inRun first] else [] := by
  by_cases h : isBlank c = true
  · simp [Program.taking, blanksProgram, awaitsBlank, inRun, contains_blankClass, h]
  · simp [Program.taking, blanksProgram, awaitsBlank, contains_blankClass, h]

/-! ## The search for a match -/

theorem scan_matched (position : ℕ) (before : Option Char) (slots : Slots) (cs : List Char) :
    blanksProgram.scan position before [] (some slots) cs = some slots := by
  cases cs with
  | nil => rw [Program.scan, settle_matched]
  | cons c cs =>
    rw [Program.scan, settle_matched]
    rfl

theorem scan_fresh_nil (position : ℕ) (before : Option Char) :
    blanksProgram.scan position before [] none [] = none := by
  rw [Program.scan, settle_fresh]

theorem scan_fresh_cons (position : ℕ) (before : Option Char) (c : Char) (cs : List Char) :
    blanksProgram.scan position before [] none (c :: cs) =
      blanksProgram.scan (position + 1) (some c) (if isBlank c then [inRun position] else []) none
        cs := by
  rw [Program.scan, settle_fresh, ← taking_awaitsBlank]
  rfl

theorem scan_inRun_nil (position : ℕ) (before : Option Char) (first : ℕ) :
    blanksProgram.scan position before [inRun first] none [] = some #[some first, some position] := by
  rw [Program.scan, settle_inRun]
  rfl

theorem scan_inRun_newline (position : ℕ) (before : Option Char) (first : ℕ) (cs : List Char) :
    blanksProgram.scan position before [inRun first] none ('\n' :: cs) =
      some #[some first, some position] := by
  rw [Program.scan, settle_inRun]
  show blanksProgram.scan (position + 1) (some '\n')
    (Program.taking blanksProgram.code '\n' [awaitsBlank first])
    (some #[some first, some position]) cs = _
  rw [taking_awaitsBlank, isBlank_newline]
  exact scan_matched _ _ _ _

theorem scan_inRun_cons (hc : c ≠ '\n') (position : ℕ) (before : Option Char) (first : ℕ) :
    blanksProgram.scan position before [inRun first] none (c :: cs) =
      blanksProgram.scan (position + 1) (some c) (if isBlank c then [inRun first] else []) none
        cs := by
  have hinside : Anchor.lineEnd.holds before (some c) = false := by simp [Anchor.holds, hc]
  rw [Program.scan, settle_inRun, ← taking_awaitsBlank]
  simp only [hinside]
  rfl

/-- Where the run comes to the end of its line, the thread that is in it matches. -/
theorem scan_inRun_run (hrun : ∀ c ∈ run, isBlank c = true) (hbehind : atLineEnd behind = true) :
    blanksProgram.scan position before [inRun first] none (run ++ behind) =
      some #[some first, some (position + run.length)] := by
  induction run generalizing position before with
  | nil =>
    cases behind with
    | nil => exact scan_inRun_nil _ _ _
    | cons d behind =>
      obtain rfl : d = '\n' := by simpa [atLineEnd] using hbehind
      exact scan_inRun_newline _ _ _ _
  | cons c run ih =>
    obtain ⟨hc, hrun⟩ := List.forall_mem_cons.1 hrun
    rw [List.cons_append, scan_inRun_cons (ne_newline_of_isBlank hc), if_pos hc, ih hrun,
      List.length_cons, Nat.add_assoc, Nat.add_comm 1]

/-- Where the run has something behind it on its line, it does not matter when the thread that is in
it has started, or whether there is one. -/
theorem scan_inRun_lost (hlost : atLineEnd (cs.dropWhile isBlank) = false) :
    blanksProgram.scan position before [inRun first] none cs =
      blanksProgram.scan position before [] none cs := by
  induction cs generalizing position before first with
  | nil => cases hlost
  | cons c cs ih =>
    by_cases hc : isBlank c = true
    · rw [List.dropWhile_cons_of_pos hc] at hlost
      rw [scan_inRun_cons (ne_newline_of_isBlank hc), scan_fresh_cons, if_pos hc, if_pos hc,
        ih hlost, ih hlost]
    · rw [List.dropWhile_cons_of_neg hc] at hlost
      have hne : c ≠ '\n' := by simpa [atLineEnd] using hlost
      rw [scan_inRun_cons hne, scan_fresh_cons, if_neg hc, if_neg hc]

/-! ## All matches -/

/-- The match of a run of blanks. -/
def blanksMatch (start stop : ℕ) : Match :=
  ⟨start, stop, #[some start, some stop]⟩

/-- Where the rule finds no run, a match starts later, if there is any. -/
theorem scan_fresh_zero (h : trailingBlanks before (c :: cs) = 0) :
    blanksProgram.scan position before [] none (c :: cs) =
      blanksProgram.scan (position + 1) (some c) [] none cs := by
  rw [scan_fresh_cons]
  by_cases hc : isBlank c = true
  · rw [if_pos hc]
    refine scan_inRun_lost ?_
    rw [trailingBlanks_eq, List.dropWhile_cons_of_pos hc, List.takeWhile_cons_of_pos hc] at h
    simpa using h
  · rw [if_neg hc]

theorem scan_fresh_succ (h : trailingBlanks before cs = n + 1) :
    blanksProgram.scan position before [] none cs =
      some #[some position, some (position + (n + 1))] := by
  obtain ⟨hne, hrun, hbehind⟩ := BlanksAtLineEnd.of_trailingBlanks h
  have hlength : (cs.take (n + 1)).length = n + 1 := by
    rw [List.length_take, Nat.min_eq_left (h ▸ trailingBlanks_le_length before cs)]
  rw [← List.take_append_drop (n + 1) cs]
  generalize cs.take (n + 1) = run at *
  cases run with
  | nil => exact absurd rfl hne
  | cons c run =>
    obtain ⟨hc, hrun⟩ := List.forall_mem_cons.1 hrun
    have hrest : position + 1 + run.length = position + (n + 1) := by
      rw [← hlength, List.length_cons]
      omega
    rw [List.cons_append, scan_fresh_cons, if_pos hc, scan_inRun_run hrun hbehind, hrest]

/-- What a search finds is a run that starts here or later. -/
theorem scan_fresh_eq_some (h : blanksProgram.scan position before [] none cs = some slots) :
    ∃ start stop, position ≤ start ∧ start < stop ∧ slots = #[some start, some stop] := by
  induction cs generalizing position before with
  | nil => cases (scan_fresh_nil position before).symm.trans h
  | cons c cs ih =>
    cases hrule : trailingBlanks before (c :: cs) with
    | zero =>
      obtain ⟨start, stop, hstart, hstop, rfl⟩ := ih ((scan_fresh_zero hrule).symm.trans h)
      exact ⟨start, stop, by omega, hstop, rfl⟩
    | succ n =>
      obtain rfl := Option.some.inj ((scan_fresh_succ hrule).symm.trans h)
      exact ⟨position, position + (n + 1), Nat.le_refl _, by omega, rfl⟩

theorem find?_nil : blanksProgram.find? position before [] = none := by
  rw [Program.find?, scan_fresh_nil]
  rfl

theorem find?_zero (h : trailingBlanks before (c :: cs) = 0) :
    blanksProgram.find? position before (c :: cs) =
      blanksProgram.find? (position + 1) (some c) cs := by
  rw [Program.find?, Program.find?, scan_fresh_zero h]
  cases hscan : blanksProgram.scan (position + 1) (some c) [] none cs with
  | none => rfl
  | some slots =>
    obtain ⟨start, stop, -, -, rfl⟩ := scan_fresh_eq_some hscan
    rfl

theorem find?_succ (h : trailingBlanks before cs = n + 1) :
    blanksProgram.find? position before cs =
      some (blanksMatch position (position + (n + 1))) := by
  rw [Program.find?, scan_fresh_succ h]
  rfl

theorem find?_eq_some {m : Match} (h : blanksProgram.find? position before cs = some m) :
    position ≤ m.start ∧ m.start < m.stop := by
  obtain ⟨slots, hscan, rfl⟩ := Option.map_eq_some_iff.1 h
  obtain ⟨start, stop, hstart, hstop, rfl⟩ := scan_fresh_eq_some hscan
  exact ⟨hstart, hstop⟩

/-- The characters of a match are passed over. -/
theorem matchesFrom_skip (adjacent : Bool) (hn : n ≤ cs.length) :
    blanksProgram.matchesFrom position (some c) n adjacent cs =
      blanksProgram.matchesFrom (position + n) (some ((cs.take n).getLast?.getD c)) 0 adjacent
        (cs.drop n) := by
  induction n generalizing position c cs with
  | zero => rfl
  | succ n ih =>
    cases cs with
    | nil => cases hn
    | cons d cs =>
      rw [Program.matchesFrom, List.take_succ_cons, List.drop_succ_cons, List.getLast?_cons]
      show blanksProgram.matchesFrom (position + 1) (some d) n adjacent cs = _
      rw [Option.getD_some, ih (Nat.le_of_succ_le_succ hn), Nat.add_assoc, Nat.add_comm 1]

/-- A search that is begun at a character where no match starts finds the matches behind it. -/
theorem matchesFrom_zero (adjacent adjacent' : Bool) (h : trailingBlanks before (c :: cs) = 0) :
    blanksProgram.matchesFrom position before 0 adjacent (c :: cs) =
      blanksProgram.matchesFrom (position + 1) (some c) 0 adjacent' cs := by
  rw [Program.matchesFrom, find?_zero h]
  cases hfind : blanksProgram.find? (position + 1) (some c) cs with
  | none => cases cs <;> simp [Program.matchesFrom, hfind]
  | some m =>
    obtain ⟨hstart, hstop⟩ := find?_eq_some hfind
    cases cs with
    | nil => cases find?_nil.symm.trans hfind
    | cons d cs =>
      have hskip : m.stop - position - 1 = (m.stop - (position + 1) - 1) + 1 := by omega
      simp only [Program.matchesFrom, hfind, hskip]
      rw [if_neg (by omega), if_neg (by omega), if_neg (by omega), if_neg (by omega)]

theorem matchesFrom_succ (adjacent : Bool) (h : trailingBlanks before (c :: cs) = n + 1) :
    blanksProgram.matchesFrom position before 0 adjacent (c :: cs) =
      blanksMatch position (position + (n + 1)) ::
        blanksProgram.matchesFrom (position + (n + 1)) (some ((cs.take n).getLast?.getD c)) 0 true
          (cs.drop n) := by
  have hlength : n + 1 ≤ (c :: cs).length := h ▸ trailingBlanks_le_length before (c :: cs)
  have hskip : position + (n + 1) - position - 1 = n := by omega
  rw [Program.matchesFrom, find?_succ h]
  simp only [blanksMatch, hskip]
  rw [if_neg (by omega), if_neg (by omega), matchesFrom_skip _ (Nat.le_of_succ_le_succ hlength), Nat.add_assoc, Nat.add_comm 1]

theorem head?_matchesFrom (position : ℕ) (before : Option Char) (adjacent : Bool) (cs : List Char) :
    ∀ m ∈ (blanksProgram.matchesFrom position before 0 adjacent cs).head?, position ≤ m.start := by
  intro m hm
  cases cs with
  | nil => simp [Program.matchesFrom, find?_nil] at hm
  | cons c cs =>
    cases hfind : blanksProgram.find? position before (c :: cs) with
    | none => simp [Program.matchesFrom, hfind] at hm
    | some found =>
      obtain ⟨hstart, hstop⟩ := find?_eq_some hfind
      rw [Program.matchesFrom, hfind] at hm
      simp only [if_neg (show ¬ found.stop ≤ position by omega), if_neg (Nat.ne_of_gt hstop),
        List.head?_cons, Option.mem_some_iff] at hm
      rwa [← hm]

/-! ## Removing all matches -/

theorem toList_extract (text : List Char) (start stop : ℕ) :
    (text.toArray.extract start stop).toList = (text.drop start).take (stop - start) := by
  simp only [List.extract_toArray, List.extract_eq_take_drop]

/-- A character before the first match is kept. -/
theorem substituteMatches_cons {replacement : Match → List Char} {text : List Char}
    {found : List Match} (htext : text.drop position = c :: cs)
    (hfound : ∀ m ∈ found.head?, position + 1 ≤ m.start) :
    substituteMatches replacement text.toArray position found =
      c :: substituteMatches replacement text.toArray (position + 1) found := by
  have hkept {stop : ℕ} (hstop : position + 1 ≤ stop) :
      (text.toArray.extract position stop).toList =
        c :: (text.toArray.extract (position + 1) stop).toList := by
    obtain ⟨length, hlength⟩ := Nat.exists_eq_add_of_le hstop
    rw [toList_extract, toList_extract, ← List.drop_drop, htext,
      show stop - position = length + 1 by omega, show stop - (position + 1) = length by omega]
    rfl
  cases found with
  | nil =>
    refine hkept (Nat.lt_of_not_le fun hsize => ?_)
    rw [List.drop_eq_nil_of_le (by simpa using hsize)] at htext
    cases htext
  | cons m found =>
    rw [substituteMatches, substituteMatches, hkept (hfound m rfl), List.cons_append]

theorem substituteMatches_matchesFrom {text : List Char} (adjacent : Bool)
    (htext : text.drop position = cs) :
    substituteMatches (fun _ => []) text.toArray position
        (blanksProgram.matchesFrom position before 0 adjacent cs) =
      replaceMatches trailingBlanks (fun _ => []) before cs := by
  fun_induction replaceMatches trailingBlanks (fun _ => []) before cs
      generalizing position adjacent with
  | case1 before =>
    have hnone : blanksProgram.matchesFrom position before 0 adjacent [] = [] := by
      simp [Program.matchesFrom, find?_nil]
    rw [hnone, substituteMatches, toList_extract, htext, List.take_nil]
  | case2 before c cs h ih =>
    have hrest : text.drop (position + 1) = cs := by
      rw [← List.drop_drop, htext]
      rfl
    rw [matchesFrom_zero adjacent false h, substituteMatches_cons htext (head?_matchesFrom _ _ _ _),
      ih _ hrest]
  | case3 before c cs n h ih =>
    have hrest : text.drop (position + (n + 1)) = cs.drop n := by
      rw [← List.drop_drop, htext]
      rfl
    have hbefore : (text.toArray.extract position position).toList = [] := by
      rw [toList_extract, Nat.sub_self]
      rfl
    rw [matchesFrom_succ adjacent h, substituteMatches]
    simp only [blanksMatch, hbefore, List.nil_append]
    exact ih _ hrest

/-- The pattern removes the blanks that the scan for blanks at line ends removes. -/
theorem replaceAll_blanks (text : String) :
    Pattern.replaceAll ⟨blanksProgram, []⟩ (Template.parse "") text =
      String.ofList (replaceMatches trailingBlanks (fun _ => []) none text.toList) := by
  rw [← substituteMatches_matchesFrom false (List.drop_zero (l := text.toList))]
  rfl

end StableFormat.Pattern
