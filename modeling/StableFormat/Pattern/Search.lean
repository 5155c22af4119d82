import StableFormat.Pattern.Program

/-!
# Searching a text

The program of a pattern is followed through a text one character at a time. At each position there
is a list of threads in order of preference; a state that an earlier thread has already reached at
the position is not entered again, so the work at one position is bounded by the size of the
program. The search finds the leftmost match, and of the matches that start there the preferred one.
-/

namespace StableFormat.Pattern

/-- The positions that have been marked, by slot. -/
abbrev Slots := Array (Option Nat)

/-- A way through the program: the state that it has reached and the positions marked on the way. -/
structure Thread where
  state : Nat
  slots : Slots
  deriving Repr, Inhabited

namespace Program

/-- Where a search stands in the text. -/
structure Place where
  position : Nat
  before : Option Char
  after : Option Char

/-- The states that a thread goes on to without taking a character, in order of preference. -/
def successors (place : Place) (thread : Thread) : Instr → List Thread
  | .fork first second => [{ thread with state := first }, { thread with state := second }]
  | .check anchor next =>
    if anchor.holds place.before place.after then [{ thread with state := next }] else []
  | .mark slot next => [⟨next, thread.slots.setIfInBounds slot (some place.position)⟩]
  | .accept | .take .. => []

/-- The state waits for a character or for the end of the match. -/
def waits : Instr → Bool
  | .accept | .take .. => true
  | _ => false

/-- Entering a state leaves fewer states to enter. -/
theorem count_false_set_lt {seen : Array Bool} {i : Nat} (h : i < seen.size)
    (hf : ¬ seen[i] = true) : (seen.set i true).count false < seen.count false := by
  have hv : seen[i] = false := by simpa using hf
  have hmem : false ∈ seen := hv ▸ Array.getElem_mem h
  have hpos : 0 < seen.count false := Array.count_pos_iff.2 hmem
  rw [Array.count_set]
  simp [hv]
  omega

/-- Follows threads, preferred ones first, to the states where they wait. `seen` tells which states
have been entered at this place; `found` holds the waiting threads, last first. -/
def follow (code : Code) (place : Place) (seen : Array Bool) (threads found : List Thread) :
    Array Bool × List Thread :=
  match threads with
  | [] => (seen, found)
  | thread :: rest =>
    if h : thread.state < seen.size then
      if hs : seen[thread.state] = true then follow code place seen rest found
      else
        match code[thread.state]? with
        | some instr =>
          follow code place (seen.set thread.state true) (successors place thread instr ++ rest)
            (if waits instr then thread :: found else found)
        | none => follow code place (seen.set thread.state true) rest found
    else follow code place seen rest found
termination_by (seen.count false, threads.length)
decreasing_by
  · exact Prod.Lex.right _ (by simp)
  · exact Prod.Lex.left _ _ (count_false_set_lt h hs)
  · exact Prod.Lex.left _ _ (count_false_set_lt h hs)
  · exact Prod.Lex.right _ (by simp)

/-- The threads up to the first one that accepts: those that can still take a character, and the
slots of the accepting one. Threads behind it are less preferred and are dropped. -/
def beforeAccept (code : Code) : List Thread → List Thread × Option Slots
  | [] => ([], none)
  | thread :: rest =>
    match code[thread.state]? with
    | some .accept => ([], some thread.slots)
    | some (.take ..) =>
      let (waiting, accepted) := beforeAccept code rest
      (thread :: waiting, accepted)
    | _ => beforeAccept code rest

/-- The threads after a character, before any further state is entered. -/
def taking (code : Code) (c : Char) (threads : List Thread) : List Thread :=
  threads.filterMap fun thread =>
    match code[thread.state]? with
    | some (Instr.take cls next) =>
      if cls.contains c then some { thread with state := next } else none
    | _ => none

/-- The threads that wait at a place, given those that have arrived there, and the best match so
far. As long as there is no match, a new thread starts at every place. -/
def settle (program : Program) (place : Place) (arrived : List Thread) (best : Option Slots) :
    List Thread × Option Slots :=
  let fresh : List Thread :=
    if best.isNone then [⟨program.start, Array.replicate program.slots none⟩] else []
  let seen := Array.replicate program.code.size false
  let (_, found) := follow program.code place seen (arrived ++ fresh) []
  let (waiting, accepted) := beforeAccept program.code found.reverse
  (waiting, accepted.or best)

/-- Goes through the text from a position, given the threads that have reached it and the best match
so far. -/
def scan (program : Program) (position : Nat) (before : Option Char) (arrived : List Thread)
    (best : Option Slots) : List Char → Option Slots
  | [] => (settle program ⟨position, before, none⟩ arrived best).2
  | c :: rest =>
    let (waiting, best) := settle program ⟨position, before, some c⟩ arrived best
    if waiting.isEmpty && best.isSome then best
    else scan program (position + 1) (some c) (taking program.code c waiting) best rest

end Program

/-- Where a match lies, and the slots of its groups. -/
structure Match where
  start : Nat
  stop : Nat
  slots : Slots
  deriving Repr, Inhabited

/-- The leftmost match in the rest of a text, where `before` is the character before the rest. -/
def Program.find? (program : Program) (position : Nat) (before : Option Char) (rest : List Char) :
    Option Match :=
  (program.scan position before [] none rest).map fun slots =>
    let slot (i : Nat) : Nat := (slots[i]?.join).getD position
    ⟨slot 0, slot 1, slots⟩

/-- The matches of a program in the rest of a text, from left to right and without overlap. The
first `skip` characters of the rest lie before the next search. A match of the empty text is not
taken directly behind the match before it (`adjacent`). -/
def Program.matchesFrom (program : Program) (position : Nat) (before : Option Char) (skip : Nat)
    (adjacent : Bool) : List Char → List Match
  | [] =>
    match skip, program.find? position before [] with
    | 0, some m => if adjacent then [] else [m]
    | _, _ => []
  | c :: rest =>
    let onward (skip : Nat) (adjacent : Bool) : List Match :=
      program.matchesFrom (position + 1) (some c) skip adjacent rest
    match skip with
    | skip + 1 => onward skip adjacent
    | 0 =>
      match program.find? position before (c :: rest) with
      | none => []
      | some m =>
        if m.stop ≤ position then if adjacent then onward 0 false else m :: onward 0 false
        else if m.stop = m.start then m :: onward (m.stop - position) false
        else m :: onward (m.stop - position - 1) true

/-- All matches of a program in a text. -/
def Program.allMatches (program : Program) (text : List Char) : List Match :=
  program.matchesFrom 0 none 0 false text

end StableFormat.Pattern
