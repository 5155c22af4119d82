import Mathlib.Data.List.Forall2
import StableFormat.Proofs.Diff.HunkShape
import StableFormat.Proofs.Diff.Remarks

/-!
# Proofs: the numbers of lines that commands state

The first line of a message says what is to be done, gives a number of lines, and names the lines of
the first text that go, if there are any. The lines named by the commands on a file come in order and
never overlap. Who removes lines is told their number, and who inserts lines the number of new ones.
The number in a message about a replacement is that of the new lines, too, although it stands in front
of the lines that go.
-/

namespace StableFormat

variable {a b : List String} {e : Edit} {es : List Edit} {d : FileDiff} {path : String}

/-! ## Reading announcements -/

/-- What the first line of a message states. -/
structure Announcement where
  kind : EditKind
  /-- The line that the message is shown at. -/
  line : ℕ
  /-- The number of lines that is given. -/
  count : ℕ
  /-- The first and the last of the lines that are named. -/
  range : Option (ℕ × ℕ)
  deriving DecidableEq, Repr

/-- The announcement of a remark. -/
def readAnnouncement (r : Remark) : Option Announcement :=
  match (readMessage r.message).1 with
  | ["Remove", count, _, lines] => do
    let (before, last) ← readLineRange lines
    return ⟨.delete, r.line, ← readNumber count.toList, some (before + 1, last)⟩
  | ["Insert", count, _] => do
    return ⟨.insert, r.line, ← readNumber count.toList, none⟩
  | ["Replace", count, _, lines, "with"] => do
    let (before, last) ← readLineRange lines
    return ⟨.replace, r.line, ← readNumber count.toList, some (before + 1, last)⟩
  | _ => none

/-- The announcements that commands make. -/
def readAnnouncements (commands : List String) : Option (List Announcement) := do
  (← commands.mapM readCommand).mapM readAnnouncement

/-- The number of lines in the announcement of an edit. -/
def Edit.announcedCount (e : Edit) : ℕ :=
  if e.kind = .delete then e.lenA else e.lenB

/-- The lines that the announcement of an edit names. -/
def Edit.announcedRange (e : Edit) : Option (ℕ × ℕ) :=
  if e.kind = .insert then none else some (e.beginA + 1, e.endA)

/-- The announcement of an edit. -/
def Edit.announced (e : Edit) : Announcement :=
  ⟨e.kind, e.beginA + 1, e.announcedCount, e.announcedRange⟩

theorem readNumber_number (n : ℕ) : readNumber (toString n).toList = some n := by
  rw [Text.toList_number, readNumber_toDigits]

theorem readAnnouncement_ofEdit (path : String) (d : FileDiff) (e : Edit) :
    readAnnouncement (Remark.ofEdit path d e) = some e.announced := by
  unfold readAnnouncement Remark.ofEdit Edit.announced Edit.announcedCount Edit.announcedRange
  cases hkind : e.kind with
  | delete =>
    rw [readMessage_delete d hkind]
    show (readLineRange e.shownLines).bind _ = _
    rw [readLineRange_shownLines]
    show (readNumber (toString e.lenA).toList).bind _ = _
    rw [readNumber_number]
    rfl
  | insert =>
    rw [readMessage_insert d hkind]
    show (readNumber (toString e.lenB).toList).bind _ = _
    rw [readNumber_number]
    rfl
  | replace =>
    rw [readMessage_replace d hkind]
    show (readLineRange e.shownLines).bind _ = _
    rw [readLineRange_shownLines]
    show (readNumber (toString e.lenB).toList).bind _ = _
    rw [readNumber_number]
    rfl

/-- The commands on a file announce its edits. -/
theorem readAnnouncements_commands (d : FileDiff) (path : String) :
    readAnnouncements (d.commands path) = some (d.edits.map Edit.announced) := by
  have hannounced (es : List Edit) :
      (es.map (Remark.ofEdit path d)).mapM readAnnouncement = some (es.map Edit.announced) := by
    induction es with
    | nil => rfl
    | cons e es ih =>
      rw [List.map_cons, List.mapM_cons, readAnnouncement_ofEdit, ih]
      rfl
  rw [readAnnouncements, commands_eq, mapM_readCommand]
  exact hannounced d.edits

/-! ## What is announced -/

/-- How the announcement of an edit between two texts relates to their lines. -/
structure Announcement.Of (a b : List String) (e : Edit) (s : Announcement) : Prop where
  kind : s.kind = e.kind
  /-- The lines that go are named, and the message is shown at the first of them. -/
  names : s.kind ≠ .insert → ∃ last, s.range = some (s.line, last) ∧ s.line ≤ last ∧
    last ≤ a.length ∧ slice a (s.line - 1) last = slice a e.beginA e.endA
  delete : s.kind = .delete → ∀ first last, s.range = some (first, last) →
    s.count = last - first + 1
  insert : s.kind = .insert → s.range = none ∧ s.count = (slice b e.beginB e.endB).length
  /-- The number of lines that go is given only if the number of new ones is the same. -/
  replace : s.kind = .replace → s.count = (slice b e.beginB e.endB).length ∧
    ∀ first last, s.range = some (first, last) →
      (s.count = last - first + 1 ↔
        (slice a e.beginA e.endA).length = (slice b e.beginB e.endB).length)

theorem Edit.lenA_pos (h : e.kind ≠ .insert) : 0 < e.lenA := by
  unfold Edit.kind at h
  by_cases hA : e.lenA = 0
  · exact absurd (if_pos hA) h
  · omega

theorem Edit.Inside.announced (h : e.Inside a b) : e.announced.Of a b e := by
  have hlenA : (slice a e.beginA e.endA).length = e.lenA := length_slice h.lengthA
  have hlenB : (slice b e.beginB e.endB).length = e.lenB := length_slice h.lengthB
  -- A range that is named holds the lines that go, and there is at least one.
  have hcount {first last : ℕ} (hrange : e.announcedRange = some (first, last)) :
      last - first + 1 = e.lenA := by
    unfold Edit.announcedRange at hrange
    by_cases hkind : e.kind = .insert
    · rw [if_pos hkind] at hrange
      cases hrange
    · have hpos := Edit.lenA_pos hkind
      rw [if_neg hkind] at hrange
      cases hrange
      rw [Edit.lenA] at hpos ⊢
      omega
  refine ⟨rfl, ?_, ?_, ?_, ?_⟩
  · intro hkind
    have hpos := Edit.lenA_pos hkind
    rw [Edit.lenA] at hpos
    exact ⟨e.endA, if_neg hkind, show e.beginA + 1 ≤ e.endA by omega, h.lengthA, rfl⟩
  · intro hkind first last hrange
    rw [hcount hrange]
    exact if_pos hkind
  · intro hkind
    have hkind' : e.kind = .insert := hkind
    refine ⟨if_pos hkind', ?_⟩
    rw [hlenB]
    exact if_neg (by rw [hkind']; decide)
  · intro hkind
    have hkind' : e.kind = .replace := hkind
    have hnew : e.announced.count = e.lenB := if_neg (by rw [hkind']; decide)
    refine ⟨hnew.trans hlenB.symm, ?_⟩
    intro first last hrange
    rw [hcount hrange, hnew, hlenA, hlenB]
    exact eq_comm

theorem announcedRange_eq_some {first last : ℕ} (h : e.announcedRange = some (first, last)) :
    first = e.beginA + 1 ∧ last = e.endA := by
  unfold Edit.announcedRange at h
  split at h
  · cases h
  · cases h
    exact ⟨rfl, rfl⟩

/-- The commands on the edits between two texts announce one edit after the other. The lines of the
first text that they name, `first` to `last`, come in ascending order and do not overlap; the message
is shown at the first of them. A message that removes lines gives their number, `last - first + 1`, and
one that inserts lines gives the number of lines of the second text that it inserts. A message that
replaces lines gives the number of the new ones; that is the number of those it names exactly if the
edit puts in as many lines as it removes. -/
theorem commands_state_lines (path original expected : String) :
    ∃ announced,
      readAnnouncements ((FileDiff.compute original expected).commands path) = some announced ∧
      List.Forall₂ (Announcement.Of (Text.linesOf original) (Text.linesOf expected))
        (FileDiff.compute original expected).edits announced ∧
      (announced.filterMap (·.range)).Pairwise fun range later => range.2 < later.1 := by
  have haligned : Aligned (Text.linesOf original) (Text.linesOf expected)
      (FileDiff.compute original expected).edits 0 0 (Text.linesOf original).length
      (Text.linesOf expected).length :=
    editsWithin_aligned maxEditDistance (Text.linesOf original) (Text.linesOf expected)
  refine ⟨_, readAnnouncements_commands _ path, ?_, ?_⟩
  · rw [List.forall₂_map_right_iff, List.forall₂_same]
    intro e he
    exact (haligned.inside e he).announced
  · rw [List.filterMap_map]
    refine haligned.pairwise_apart.filterMap _ ?_
    rintro e later ⟨hA, -⟩ ⟨first, last⟩ hrange ⟨first', last'⟩ hrange'
    obtain ⟨-, hlast⟩ := announcedRange_eq_some hrange
    obtain ⟨hfirst', -⟩ := announcedRange_eq_some hrange'
    show last < first'
    omega

/-- Two lines are replaced by one: the message names two lines and says that it is one. -/
theorem replacement_miscounts_lines :
    (FileDiff.compute "a\nb\n" "c\n").commands "f" =
        ["::error file=f,line=1::Replace 1 line 1..2 with%0Ac%0A"] ∧
      readAnnouncements ["::error file=f,line=1::Replace 1 line 1..2 with%0Ac%0A"] =
        some [⟨.replace, 1, 1, some (1, 2)⟩] ∧
      ¬ ∀ (path original expected : String) (announced : List Announcement),
        readAnnouncements ((FileDiff.compute original expected).commands path) = some announced →
          ∀ s ∈ announced, ∀ first last, s.range = some (first, last) →
            s.count = last - first + 1 := by
  have hcommands : (FileDiff.compute "a\nb\n" "c\n").commands "f" =
      ["::error file=f,line=1::Replace 1 line 1..2 with%0Ac%0A"] := by
    decide +kernel
  have hread : readAnnouncements ["::error file=f,line=1::Replace 1 line 1..2 with%0Ac%0A"] =
      some [⟨.replace, 1, 1, some (1, 2)⟩] := by
    decide +kernel
  refine ⟨hcommands, hread, ?_⟩
  intro hall
  rw [← hcommands] at hread
  have hcount := hall "f" "a\nb\n" "c\n" _ hread _ List.mem_cons_self 1 2 rfl
  exact absurd hcount (by decide)

end StableFormat
