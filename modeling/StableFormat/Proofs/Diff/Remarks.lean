import Mathlib.Data.List.TakeWhile
import StableFormat.Diff.Remark
import StableFormat.Proofs.Diff.NormalForm
import StableFormat.Proofs.Diff.Patch
import StableFormat.Proofs.Text.Escapes
import StableFormat.Proofs.Text.Numbers

/-!
# Proofs: remarks are a patch

A reader of the commands of a file takes each of them apart into its remark. The line and the message
say which lines of the first text go and what stands in their place, so that the second text can be
put together again, unless some remark shows only a part of its new lines.
-/

namespace StableFormat

/-! ## Reading commands -/

/-- The remark of a command. -/
def readCommand (command : String) : Option Remark := do
  let properties ← Text.dropLiteral? "::error file=".toList command.toList
  let place ← Text.dropLiteral? ",line=".toList (properties.dropWhile (· ≠ ','))
  let message ← Text.dropLiteral? "::".toList (place.dropWhile (· ≠ ':'))
  return ⟨String.ofList (Text.unescape (properties.takeWhile (· ≠ ','))),
    ← readNumber (place.takeWhile (· ≠ ':')), String.ofList (Text.unescape message)⟩

/-- The lines `X..Y`, counted from one: how many lines stand before them, and the last of them. -/
def readLineRange (word : String) : Option (ℕ × ℕ) :=
  match Text.splitAtChar '.' word.toList with
  | [first, [], last] => do return (← readPosition first, ← readNumber last)
  | _ => none

/-- A text that stands in the place of the lines from `first` to before `resume`. -/
structure Replacement where
  first : ℕ
  resume : ℕ
  text : String

/-- The words of the first line of a message, and the text below it. -/
def readMessage (message : String) : List String × String :=
  (Text.splitString ' ' (String.ofList (message.toList.takeWhile (· ≠ '\n'))),
    String.ofList ((message.toList.dropWhile (· ≠ '\n')).drop 1))

/-- What a remark asks for. -/
def readAdvice (r : Remark) : Option Replacement :=
  match readMessage r.message with
  | (["Remove", _, _, lines], _) => do
    let (first, resume) ← readLineRange lines
    return ⟨first, resume, ""⟩
  | (["Insert", _, _], text) => some ⟨r.line - 1, r.line - 1, text⟩
  | (["Replace", _, _, lines, "with"], text) => do
    let (first, resume) ← readLineRange lines
    return ⟨first, resume, text⟩
  | _ => none

/-- The lines from `line` on, with the remarks on them followed in order. -/
def followRemarks (lines : List String) : (line : ℕ) → List Remark → Option String
  | line, [] => some (String.join (lines.drop line))
  | line, r :: rs => do
    let advice ← readAdvice r
    if line ≤ advice.first ∧ advice.first ≤ advice.resume ∧ advice.resume ≤ lines.length then
      return String.join ((lines.take advice.first).drop line) ++ advice.text ++
        (← followRemarks lines advice.resume rs)
    else none

/-- A text after the commands on it. -/
def followCommands (original : String) (commands : List String) : Option String := do
  followRemarks (Text.linesOf original) 0 (← commands.mapM readCommand)

/-! ## Commands -/

namespace Remark

/-- The characters that are escaped in a message. -/
def dataSpecial : List Char := ['\n', '\r', '%']

/-- The characters that are escaped in a property. -/
def propertySpecial : List Char := ',' :: ':' :: dataSpecial

variable {c : Char}

theorem escapeData_toList (s : String) :
    (escapeData s).toList = Text.escape dataSpecial s.toList := by
  have hplain : s.toList = Text.escape [] s.toList := by
    simp [Text.escape]
  -- The percent sign comes first, so that the signs of the later escapes are not escaped again.
  have hpercent : (Text.replaceLiteral "%" "%25" s).toList = Text.escape ['%'] s.toList :=
    Text.replaceLiteral_escape rfl (by decide) (by decide) hplain
  have hcr : (Text.replaceLiteral "\r" "%0D" (Text.replaceLiteral "%" "%25" s)).toList =
      Text.escape ['\r', '%'] s.toList :=
    Text.replaceLiteral_escape rfl (by decide) (by decide) hpercent
  exact Text.replaceLiteral_escape rfl (by decide) (by decide) hcr

theorem escapeProperty_toList (s : String) :
    (escapeProperty s).toList = Text.escape propertySpecial s.toList := by
  have hcolon : (Text.replaceLiteral ":" "%3A" (escapeData s)).toList =
      Text.escape (':' :: dataSpecial) s.toList :=
    Text.replaceLiteral_escape rfl (by decide) (by decide) (escapeData_toList s)
  exact Text.replaceLiteral_escape rfl (by decide) (by decide) hcolon

theorem command_toList (r : Remark) :
    r.command.toList = "::error file=".toList ++ (Text.escape propertySpecial r.path.toList ++
      (",line=".toList ++ (Nat.toDigits 10 r.line ++
        ("::".toList ++ Text.escape dataSpecial r.message.toList)))) := by
  have hcommand : r.command = "::error file=" ++ escapeProperty r.path ++ ",line=" ++
      toString r.line ++ "::" ++ escapeData r.message := rfl
  simp only [hcommand, String.toList_append, escapeProperty_toList, escapeData_toList,
    Text.toList_number, List.append_assoc]

/-- A command is one line. -/
theorem not_mem_command (hc : c = '\r' ∨ c = '\n') (r : Remark) : c ∉ r.command.toList := by
  have hspecial : (c ∈ dataSpecial ∧ c ∉ dataSpecial.flatMap Text.escapeCode) ∧
      c ∈ propertySpecial ∧ c ∉ propertySpecial.flatMap Text.escapeCode := by
    rcases hc with rfl | rfl
    · decide
    · decide
  have hplain : (c ∉ "::error file=".toList ∧ c ∉ ",line=".toList ∧ c ∉ "::".toList) ∧
      c.isDigit = false := by
    rcases hc with rfl | rfl
    · decide
    · decide
  obtain ⟨⟨hdata, hdataCode⟩, hproperty, hpropertyCode⟩ := hspecial
  obtain ⟨⟨hfile, hline, hcolons⟩, hdigit⟩ := hplain
  rw [command_toList]
  simp only [List.mem_append, not_or]
  exact ⟨hfile, Text.not_mem_escape hproperty hpropertyCode _, hline, Text.not_mem_toDigits hdigit _,
    hcolons, Text.not_mem_escape hdata hdataCode _⟩

end Remark

/-- A command is read back as its remark. -/
theorem readCommand_command (r : Remark) : readCommand r.command = some r := by
  have hcomma : ',' ∉ Text.escape Remark.propertySpecial r.path.toList :=
    Text.not_mem_escape (by decide) (by decide) _
  have hcolon : ':' ∉ Nat.toDigits 10 r.line := Text.not_mem_toDigits rfl r.line
  have hpath (rest : List Char) :
      (Text.escape Remark.propertySpecial r.path.toList ++ (",line=".toList ++ rest)).takeWhile
        (· ≠ ',') = Text.escape Remark.propertySpecial r.path.toList :=
    Text.takeWhile_ne_append hcomma rfl
  have hplace (rest : List Char) :
      (Text.escape Remark.propertySpecial r.path.toList ++ (",line=".toList ++ rest)).dropWhile
        (· ≠ ',') = ",line=".toList ++ rest :=
    Text.dropWhile_ne_append hcomma rfl
  have hline (rest : List Char) :
      (Nat.toDigits 10 r.line ++ ("::".toList ++ rest)).takeWhile (· ≠ ':') =
        Nat.toDigits 10 r.line :=
    Text.takeWhile_ne_append hcolon rfl
  have hmessage (rest : List Char) :
      (Nat.toDigits 10 r.line ++ ("::".toList ++ rest)).dropWhile (· ≠ ':') =
        "::".toList ++ rest :=
    Text.dropWhile_ne_append hcolon rfl
  rw [readCommand, Remark.command_toList, Text.dropLiteral?_append, Option.bind_eq_bind,
    Option.bind_some, hplace, Text.dropLiteral?_append, Option.bind_some, hmessage,
    Text.dropLiteral?_append, Option.bind_some, hpath, hline, readNumber_toDigits]
  rw [Text.unescape_escape (by decide) (by decide), Text.unescape_escape (by decide) (by decide),
    String.ofList_toList, String.ofList_toList]
  rfl

/-! ## Messages -/

/-- A word has neither a blank nor a line break. -/
def IsWord (word : String) : Prop :=
  ' ' ∉ word.toList ∧ '\n' ∉ word.toList

instance (word : String) : Decidable (IsWord word) :=
  inferInstanceAs (Decidable (' ' ∉ word.toList ∧ '\n' ∉ word.toList))

/-- The lines of the first text that an edit is about, as they are written in a message. -/
def Edit.shownLines (e : Edit) : String :=
  toString (e.beginA + 1) ++ ".." ++ toString e.endA

variable {c : Char} {v w : String} {words : List String} {e : Edit} {es : List Edit} {d : FileDiff}

theorem IsWord.append (hv : IsWord v) (hw : IsWord w) : IsWord (v ++ w) := by
  rw [IsWord, String.toList_append, List.mem_append, List.mem_append, not_or, not_or]
  exact ⟨⟨hv.1, hw.1⟩, hv.2, hw.2⟩

theorem isWord_number (n : ℕ) : IsWord (toString n) := by
  exact ⟨Text.not_mem_number rfl n, Text.not_mem_number rfl n⟩

theorem isWord_plural (n : ℕ) : IsWord ("line" ++ Remark.plural n) := by
  rw [Remark.plural]
  split_ifs
  · decide
  · decide

theorem isWord_shownLines (e : Edit) : IsWord e.shownLines :=
  ((isWord_number _).append (by decide)).append (isWord_number _)

theorem newline_not_mem_words (hwords : ∀ w ∈ words, IsWord w) :
    '\n' ∉ (Text.joinStrings ' ' words).toList := by
  rw [Text.joinStrings_toList]
  intro hmem
  rcases Text.mem_joinWithChar hmem with heq | ⟨cs, hcs, hc⟩
  · exact absurd heq (by decide)
  · obtain ⟨w, hw, rfl⟩ := List.mem_map.1 hcs
    exact (hwords w hw).2 hc

theorem splitString_words (hne : words ≠ []) (hwords : ∀ w ∈ words, IsWord w) :
    Text.splitString ' ' (Text.joinStrings ' ' words) = words :=
  Text.splitString_joinStrings hne fun w hw => (hwords w hw).1

/-- The first line of a message is read as the words that it was made of. -/
theorem readMessage_words (hne : words ≠ []) (hwords : ∀ w ∈ words, IsWord w) (text : String) :
    readMessage (Text.joinStrings ' ' words ++ "\n" ++ text) = (words, text) := by
  have hline := newline_not_mem_words hwords
  have hmessage : (Text.joinStrings ' ' words ++ "\n" ++ text).toList =
      (Text.joinStrings ' ' words).toList ++ '\n' :: text.toList := by
    simp
  rw [readMessage, hmessage, Text.takeWhile_ne_append hline rfl, Text.dropWhile_ne_append hline rfl,
    String.ofList_toList, splitString_words hne hwords, List.drop_one, List.tail_cons,
    String.ofList_toList]

/-- A message of one line. -/
theorem readMessage_line (hne : words ≠ []) (hwords : ∀ w ∈ words, IsWord w) :
    readMessage (Text.joinStrings ' ' words) = (words, "") := by
  have hline := newline_not_mem_words hwords
  have hall : ∀ c ∈ (Text.joinStrings ' ' words).toList, decide (c ≠ '\n') = true := fun c hc =>
    decide_eq_true (ne_of_mem_of_not_mem hc hline)
  rw [readMessage, List.takeWhile_eq_self_iff.2 hall, List.dropWhile_eq_nil_iff.2 hall,
    String.ofList_toList, splitString_words hne hwords]
  rfl

theorem readLineRange_shownLines (e : Edit) :
    readLineRange e.shownLines = some (e.beginA, e.endA) := by
  have hjoin : e.shownLines.toList = Text.joinWithChar '.'
      [Nat.toDigits 10 (e.beginA + 1), [], Nat.toDigits 10 e.endA] := by
    simp [Edit.shownLines, Text.joinWithChar]
  have hdot : ∀ piece ∈ [Nat.toDigits 10 (e.beginA + 1), [], Nat.toDigits 10 e.endA],
      '.' ∉ piece := by
    simp [Text.not_mem_toDigits]
  rw [readLineRange, hjoin, Text.splitAtChar_joinWithChar (List.cons_ne_nil _ _) hdot]
  simp [readPosition_toDigits, readNumber_toDigits]

theorem readMessage_delete (d : FileDiff) (h : e.kind = .delete) :
    readMessage (Remark.advice d e) =
      (["Remove", toString e.lenA, "line" ++ Remark.plural e.lenA ++ ":", e.shownLines], "") := by
  have hadvice : Remark.advice d e = Text.joinStrings ' '
      ["Remove", toString e.lenA, "line" ++ Remark.plural e.lenA ++ ":", e.shownLines] := by
    apply String.toList_injective
    simp [Remark.advice, h, Edit.shownLines, Text.joinStrings, Text.joinWithChar]
  rw [hadvice, readMessage_line (List.cons_ne_nil _ _)]
  simp only [List.forall_mem_cons]
  exact ⟨by decide, isWord_number _, (isWord_plural _).append (by decide), isWord_shownLines e,
    List.forall_mem_nil _⟩

theorem readMessage_insert (d : FileDiff) (h : e.kind = .insert) :
    readMessage (Remark.advice d e) =
      (["Insert", toString e.lenB, "line" ++ Remark.plural e.lenB ++ ":"],
        Remark.suggestion d e) := by
  have hadvice : Remark.advice d e = Text.joinStrings ' '
      ["Insert", toString e.lenB, "line" ++ Remark.plural e.lenB ++ ":"] ++ "\n" ++
        Remark.suggestion d e := by
    apply String.toList_injective
    simp [Remark.advice, h, Text.joinStrings, Text.joinWithChar]
  rw [hadvice, readMessage_words (List.cons_ne_nil _ _)]
  simp only [List.forall_mem_cons]
  exact ⟨by decide, isWord_number _, (isWord_plural _).append (by decide), List.forall_mem_nil _⟩

theorem readMessage_replace (d : FileDiff) (h : e.kind = .replace) :
    readMessage (Remark.advice d e) =
      (["Replace", toString e.lenB, "line" ++ Remark.plural e.lenB, e.shownLines, "with"],
        Remark.suggestion d e) := by
  have hadvice : Remark.advice d e = Text.joinStrings ' '
      ["Replace", toString e.lenB, "line" ++ Remark.plural e.lenB, e.shownLines, "with"] ++
        "\n" ++ Remark.suggestion d e := by
    apply String.toList_injective
    simp [Remark.advice, h, Edit.shownLines, Text.joinStrings, Text.joinWithChar]
  rw [hadvice, readMessage_words (List.cons_ne_nil _ _)]
  simp only [List.forall_mem_cons]
  exact ⟨by decide, isWord_number _, isWord_plural _, isWord_shownLines e, by decide,
    List.forall_mem_nil _⟩

/-! ## Following remarks -/

/-- An edit that removes nothing is an insertion, one that puts in nothing otherwise a deletion. -/
theorem Edit.lenA_of_insert (h : e.kind = .insert) : e.lenA = 0 := by
  rw [Edit.kind] at h
  split_ifs at h with hA hB
  exact hA

theorem Edit.lenB_of_delete (h : e.kind = .delete) : e.lenB = 0 := by
  rw [Edit.kind] at h
  split_ifs at h with hA hB
  exact hB

theorem expectedText_eq (d : FileDiff) (first last : ℕ) :
    d.expectedText first last = String.join ((d.b.toList.take last).drop first) := by
  rw [FileDiff.expectedText, Array.toList_extract, List.extract_eq_take_drop, List.drop_take]

/-- The remark on an edit is read as the edit, if all of its new lines are shown. -/
theorem readAdvice_ofEdit (path : String) (hA : e.beginA ≤ e.endA)
    (hB : e.beginB ≤ e.endB) (hshown : e.lenB ≤ Remark.maxSuggestionLines) :
    readAdvice (Remark.ofEdit path d e) =
      some ⟨e.beginA, e.endA, d.expectedText e.beginB e.endB⟩ := by
  have hsuggestion : Remark.suggestion d e = d.expectedText e.beginB e.endB := if_pos hshown
  rw [readAdvice, Remark.ofEdit]
  cases hkind : e.kind with
  | delete =>
    have hlen := Edit.lenB_of_delete hkind
    have hend : e.endB = e.beginB := by
      rw [Edit.lenB] at hlen
      omega
    have hnothing : d.expectedText e.beginB e.endB = "" := by
      rw [expectedText_eq, hend, List.drop_take_self]
      rfl
    rw [readMessage_delete d hkind, hnothing]
    show (readLineRange e.shownLines).bind _ = _
    rw [readLineRange_shownLines]
    rfl
  | insert =>
    have hlen := Edit.lenA_of_insert hkind
    have hend : e.endA = e.beginA := by
      rw [Edit.lenA] at hlen
      omega
    rw [readMessage_insert d hkind, hsuggestion, hend]
    rfl
  | replace =>
    rw [readMessage_replace d hkind, hsuggestion]
    show (readLineRange e.shownLines).bind _ = _
    rw [readLineRange_shownLines]
    rfl

/-- Who follows the remarks on edits carries the edits out. -/
theorem Aligned.followRemarks {a b : List String} {i j : ℕ} (path : String)
    (h : Aligned a b es i j a.length b.length) (hb : d.b.toList = b)
    (hshown : ∀ e ∈ es, e.lenB ≤ Remark.maxSuggestionLines) :
    followRemarks a i (es.map (Remark.ofEdit path d)) = some (String.join (carryOut a b i es)) := by
  generalize hm : a.length = m at h
  generalize hn : b.length = n at h
  induction h with
  | done same => rfl
  | @edit e es i j m n same inside apart rest ih =>
    have hlater := ih (fun later hlater => hshown later (List.mem_cons_of_mem e hlater)) hm hn
    have hadvice := readAdvice_ofEdit (d := d) path inside.leA inside.leB
      (hshown e List.mem_cons_self)
    rw [List.map_cons, StableFormat.followRemarks, hadvice, Option.bind_eq_bind, Option.bind_some,
      if_pos ⟨same.bounds.1, inside.leA, inside.lengthA⟩, hlater, carryOut, expectedText_eq, hb,
      String.join_append, String.join_append]
    rfl

theorem mapM_readCommand (rs : List Remark) :
    (rs.map (·.command)).mapM readCommand = some rs := by
  induction rs with
  | nil => rfl
  | cons r rs ih =>
    rw [List.map_cons, List.mapM_cons, readCommand_command, ih]
    rfl

theorem commands_eq (d : FileDiff) (path : String) :
    d.commands path = (d.edits.map (Remark.ofEdit path d)).map (·.command) := by
  rw [FileDiff.commands, List.map_map]
  rfl

theorem not_mem_of_commands (hc : c = '\r' ∨ c = '\n') {path command : String}
    (hcommand : command ∈ d.commands path) : c ∉ command.toList := by
  rw [commands_eq] at hcommand
  obtain ⟨r, -, rfl⟩ := List.mem_map.1 hcommand
  exact Remark.not_mem_command hc r

/-- The commands on the edits between two texts. There is one for each edit, a single line from which
its remark can be read back. If each edit puts in so few lines that all of them are shown, the second
text is what the commands make of the first one. -/
theorem commands_faithful (path original expected : String) :
    ((FileDiff.compute original expected).commands path).length =
        (FileDiff.compute original expected).edits.length ∧
      (∀ command ∈ (FileDiff.compute original expected).commands path,
        '\r' ∉ command.toList ∧ '\n' ∉ command.toList) ∧
      ((FileDiff.compute original expected).commands path).mapM readCommand =
        some ((FileDiff.compute original expected).edits.map
          (Remark.ofEdit path (FileDiff.compute original expected))) ∧
      ((∀ e ∈ (FileDiff.compute original expected).edits, e.lenB ≤ 20) →
        followCommands original ((FileDiff.compute original expected).commands path) =
          some expected) := by
  have haligned : Aligned (Text.linesOf original) (Text.linesOf expected)
      (FileDiff.compute original expected).edits 0 0 (Text.linesOf original).length
      (Text.linesOf expected).length :=
    editsWithin_aligned maxEditDistance (Text.linesOf original) (Text.linesOf expected)
  have hb : (FileDiff.compute original expected).b.toList = Text.linesOf expected := rfl
  -- Only the edits and the second text matter from here on, not how the edits were found.
  generalize FileDiff.compute original expected = d at haligned hb ⊢
  have hread : (d.commands path).mapM readCommand = some (d.edits.map (Remark.ofEdit path d)) := by
    rw [commands_eq, mapM_readCommand]
  refine ⟨?_, ?_, hread, ?_⟩
  · rw [FileDiff.commands, List.length_map]
  · exact fun command hcommand =>
      ⟨not_mem_of_commands (Or.inl rfl) hcommand, not_mem_of_commands (Or.inr rfl) hcommand⟩
  · intro hshown
    have hfollow := haligned.followRemarks path hb hshown
    rw [haligned.carryOut_eq, List.drop_zero, Text.join_linesOf] at hfollow
    rw [followCommands, hread]
    exact hfollow

/-- Separators and percent signs stand in the name of the file and in its lines. -/
theorem commands_faithful_percent :
    (FileDiff.compute "a\r\nb\nc\n" "50%\nc\nd: e,\n").commands "x:y,z%0A" =
        ["::error file=x%3Ay%2Cz%250A,line=1::Replace 1 line 1..2 with%0A50%25%0A",
          "::error file=x%3Ay%2Cz%250A,line=4::Insert 1 line:%0Ad: e,%0A"] ∧
      followCommands "a\r\nb\nc\n"
        ["::error file=x%3Ay%2Cz%250A,line=1::Replace 1 line 1..2 with%0A50%25%0A",
          "::error file=x%3Ay%2Cz%250A,line=4::Insert 1 line:%0Ad: e,%0A"] =
        some "50%\nc\nd: e,\n" := by
  have hcommands : (FileDiff.compute "a\r\nb\nc\n" "50%\nc\nd: e,\n").commands "x:y,z%0A" =
      ["::error file=x%3Ay%2Cz%250A,line=1::Replace 1 line 1..2 with%0A50%25%0A",
        "::error file=x%3Ay%2Cz%250A,line=4::Insert 1 line:%0Ad: e,%0A"] := by
    decide +kernel
  have hshown : ∀ e ∈ (FileDiff.compute "a\r\nb\nc\n" "50%\nc\nd: e,\n").edits, e.lenB ≤ 20 := by
    decide +kernel
  obtain ⟨-, -, -, hfollow⟩ :=
    commands_faithful "x:y,z%0A" "a\r\nb\nc\n" "50%\nc\nd: e,\n"
  refine ⟨hcommands, ?_⟩
  rw [← hcommands]
  exact hfollow hshown

end StableFormat
