import StableFormat.Pattern.Error
import StableFormat.Pattern.Expr
import StableFormat.Text.CharTable.OtherNumber

/-!
# Reading patterns

From the text of a pattern to an expression and the names of its groups. A group reads its body by a
recursive call; the number of calls is bounded by the length of the text, because every call
consumes at least one character.
-/

namespace StableFormat.Pattern

open Text

/-- The flags in force at a position of a pattern. -/
structure Flags where
  ignoreCase : Bool := false
  multiLine : Bool := false
  dotAll : Bool := false
  swapGreed : Bool := false
  freeSpacing : Bool := false
  anyLineEnd : Bool := false
  deriving DecidableEq, Repr, Inhabited

namespace Flags

/-- Switches the flag of a letter; `none` for a letter that is no flag. The flag `u` asks for the
characters of all scripts, which is always the case and cannot be switched off. -/
def set (flags : Flags) (letter : Char) (on : Bool) : Option Flags :=
  match letter with
  | 'i' => some { flags with ignoreCase := on }
  | 'm' => some { flags with multiLine := on }
  | 's' => some { flags with dotAll := on }
  | 'U' => some { flags with swapGreed := on }
  | 'x' => some { flags with freeSpacing := on }
  | 'R' => some { flags with anyLineEnd := on }
  | 'u' => if on then some flags else none
  | _ => none

end Flags

/-- What a reader has learned so far: the flags in force, and the name, if any, of each group that
has been opened. -/
structure ReaderState where
  flags : Flags
  groups : List (Option String) := []
  deriving Repr, Inhabited

/-- What stands at a position and is no group, bracket or operator. -/
inductive Atom where
  | char (c : Char)
  | cls (c : CharClass)
  | anchor (a : Anchor)

/-- An item of a branch. A switch of flags cannot be repeated. -/
inductive Item where
  | expr (e : Expr)
  | flags

namespace Reader

/-- The result of reading something, and the rest of the pattern. -/
abbrev Read (α : Type) := Except PatternError (α × List Char)

/-- The rest behind white space and comments, inside a comment if `comment` holds. -/
def skipFree (comment : Bool) : List Char → List Char
  | [] => []
  | c :: cs =>
    if comment then skipFree (c ≠ '\n') cs
    else if isWhiteSpace c then skipFree false cs
    else if c = '#' then skipFree true cs
    else c :: cs

/-- With free spacing, the rest behind white space and comments. -/
def skipSpacing (flags : Flags) (cs : List Char) : List Char :=
  if flags.freeSpacing then skipFree false cs else cs

/-! ## Escapes -/

/-- The value of a hexadecimal digit. -/
def hexValue? (c : Char) : Option Nat :=
  if '0' ≤ c && c ≤ '9' then some (c.toNat - '0'.toNat)
  else if 'a' ≤ c && c ≤ 'f' then some (c.toNat - 'a'.toNat + 10)
  else if 'A' ≤ c && c ≤ 'F' then some (c.toNat - 'A'.toNat + 10)
  else none

/-- The character of a code point; there is none for a surrogate or beyond the last plane. -/
def charOfCodePoint? (n : Nat) : Option Char :=
  if h : n.isValidChar then some (Char.ofNatAux n h) else none

/-- Exactly `count` hexadecimal digits. -/
def readHexDigits (flags : Flags) : (count value : Nat) → List Char → Read Char
  | 0, value, cs =>
    match charOfCodePoint? value with
    | some c => .ok (c, skipSpacing flags cs)
    | none => .error .invalidCodePoint
  | count + 1, value, cs =>
    match skipSpacing flags cs with
    | [] => .error .unknownEscape
    | c :: rest =>
      match hexValue? c with
      | some d => readHexDigits flags count (value * 16 + d) rest
      | none => .error .unknownEscape

/-- Hexadecimal digits up to a closing brace. -/
def readHexBraced (flags : Flags) (digits : List Char) : List Char → Read Char
  | [] => .error .unknownEscape
  | c :: rest =>
    if c = '}' then
      let value := digits.reverse.foldl (fun n d => n * 16 + (hexValue? d).getD 0) 0
      if digits.isEmpty then .error .unknownEscape
      else
        match charOfCodePoint? value with
        | some c => .ok (c, skipSpacing flags rest)
        | none => .error .invalidCodePoint
    else if (hexValue? c).isSome then readHexBraced flags (c :: digits) rest
    else if flags.freeSpacing && isWhiteSpace c then readHexBraced flags digits rest
    else .error .unknownEscape

/-- A code point in hexadecimal: a fixed number of digits, or any number between braces. -/
def readHex (flags : Flags) (count : Nat) (cs : List Char) : Read Char :=
  match skipSpacing flags cs with
  | '{' :: rest => readHexBraced flags [] rest
  | rest => readHexDigits flags count 0 rest

/-- A character that has a meaning of its own and loses it behind a backslash. -/
def isMeta (c : Char) : Bool :=
  "\\.+*?()|[]\x7b\x7d^$#&-~".toList.contains c

/-- A character that a backslash leaves as it is: any ASCII character but letters, digits and angle
brackets. -/
def isEscapable (c : Char) : Bool :=
  c.toNat < 128 && !c.isAlphanum && c ≠ '<' && c ≠ '>'

/-- The condition between the braces of a word anchor. -/
def wordAnchorOfName? (name : List Char) : Option Anchor :=
  match String.ofList name with
  | "start" => some .wordStart
  | "end" => some .wordEnd
  | "start-half" => some .wordStartHalf
  | "end-half" => some .wordEndHalf
  | _ => none

/-- What follows `\b`: a name between braces, or else a plain word boundary. Braces that hold no
name are left to be read as a count. -/
def readWordAnchor (flags : Flags) (cs : List Char) : Read Anchor :=
  let isNameChar (c : Char) : Bool := c.isAlpha || c = '-'
  match cs with
  | '{' :: inner =>
    match skipSpacing flags inner with
    | [] => .error .unclosedCount
    | c :: rest =>
      if isNameChar c then
        let name := (c :: rest).takeWhile isNameChar
        match (c :: rest).dropWhile isNameChar, wordAnchorOfName? name with
        | '}' :: behind, some anchor => .ok (anchor, behind)
        | _, _ => .error .unknownEscape
      else .ok (.wordBoundary, cs)
  | _ => .ok (.wordBoundary, cs)

/-- What follows a backslash. -/
def readEscape (flags : Flags) : List Char → Read Atom
  | [] => .error .unknownEscape
  | c :: rest =>
    if c.isDigit then .error .backReference
    else if isMeta c || isEscapable c then .ok (.char c, rest)
    else
      let hex (count : Nat) : Read Atom := (readHex flags count rest).map fun (x, r) => (.char x, r)
      match c with
      | 'x' => hex 2
      | 'u' => hex 4
      | 'U' => hex 8
      | 'd' => .ok (.cls .digit, rest)
      | 'D' => .ok (.cls (.complement .digit), rest)
      | 's' => .ok (.cls .space, rest)
      | 'S' => .ok (.cls (.complement .space), rest)
      | 'w' => .ok (.cls .word, rest)
      | 'W' => .ok (.cls (.complement .word), rest)
      | 'a' => .ok (.char '\x07', rest)
      | 'f' => .ok (.char '\x0c', rest)
      | 't' => .ok (.char '\t', rest)
      | 'n' => .ok (.char '\n', rest)
      | 'r' => .ok (.char '\r', rest)
      | 'v' => .ok (.char '\x0b', rest)
      | 'A' => .ok (.anchor .textStart, rest)
      | 'z' => .ok (.anchor .textEnd, rest)
      | 'b' => (readWordAnchor flags rest).map fun (a, r) => (.anchor a, r)
      | 'B' => .ok (.anchor .insideOrOutsideWord, rest)
      | '<' => .ok (.anchor .wordStart, rest)
      | '>' => .ok (.anchor .wordEnd, rest)
      | _ => .error .unknownEscape

/-! ## Classes between brackets -/

/-- An operation between two sets of one class. -/
inductive ClassOp where
  | intersection
  | difference
  | symmetricDifference

/-- The set that an operation makes. -/
def ClassOp.apply (flags : Flags) (op : ClassOp) (a b : CharClass) : CharClass :=
  let close (c : CharClass) : CharClass := if flags.ignoreCase then .anyCase c else c
  match op with
  | intersection => .intersection (close a) (close b)
  | difference => .difference (close a) (close b)
  | symmetricDifference => .symmetricDifference (close a) (close b)

/-- The part of a class that has been read: the sets before the last operation, and the members
since. -/
structure ClassState where
  pending : Option (CharClass × ClassOp) := none
  members : CharClass := .none

namespace ClassState

/-- Adds members. -/
def add (s : ClassState) (c : CharClass) : ClassState :=
  { s with members := .union s.members c }

/-- The set of all that has been read. -/
def result (flags : Flags) (s : ClassState) : CharClass :=
  match s.pending with
  | some (before, op) => op.apply flags before s.members
  | none => s.members

/-- An operation follows. -/
def operate (flags : Flags) (s : ClassState) (op : ClassOp) : ClassState :=
  ⟨some (s.result flags, op), .none⟩

end ClassState

/-- A class with its case variants, if case is ignored, and negated if it says so. -/
def closeClass (flags : Flags) (negated : Bool) (c : CharClass) : CharClass :=
  let folded := if flags.ignoreCase then .anyCase c else c
  if negated then .complement folded else folded

/-- A named ASCII class `[:name:]`; `none` if the text is no such class. -/
def readAsciiClass? (flags : Flags) (cs : List Char) : Option (CharClass × List Char) :=
  match cs with
  | '[' :: ':' :: rest =>
    let negated := rest.head? = some '^'
    let body := if negated then rest.drop 1 else rest
    match body.dropWhile (· ≠ ':') with
    | ':' :: ']' :: behind =>
      (CharClass.ofAsciiName? (String.ofList (body.takeWhile (· ≠ ':')))).map fun c =>
        (closeClass flags negated c, behind)
    | _ => none
  | _ => none

/-- A member of a class: an escape, or a character that stands for itself. -/
def readMember (flags : Flags) : List Char → Read Atom
  | [] => .error .unclosedClass
  | '\\' :: rest => readEscape flags rest
  | c :: rest => .ok (.char c, rest)

/-- The members that an atom contributes on its own. -/
def Atom.asMembers : Atom → Except PatternError CharClass
  | .char c => .ok (.single c)
  | .cls c => .ok c
  | .anchor _ => .error .anchorInClass

/-- A member or a range of members. A `-` is a range only between two members. -/
def readRange (flags : Flags) (cs : List Char) :
    Except PatternError (CharClass × List Char) := do
  let (first, rest) ← readMember flags cs
  let alone : Read CharClass := (Atom.asMembers first).map (·, skipSpacing flags rest)
  match skipSpacing flags rest with
  | [] => .error .unclosedClass
  | '-' :: behind =>
    match skipSpacing flags behind with
    | [] => .error .unclosedClass
    | c :: more =>
      if c = ']' || c = '-' then alone
      else
        let (second, rest) ← readMember flags (c :: more)
        match first, second with
        | .char lo, .char hi =>
          if lo ≤ hi then .ok (.range lo hi, rest) else .error .invalidRange
        | _, _ => .error .invalidRange
  | _ => alone

/-- Hyphens at the start of a class, which stand for themselves. -/
def readHyphens (flags : Flags) (state : ClassState) : List Char → ClassState × List Char
  | [] => (state, [])
  | c :: rest =>
    if c = '-' then readHyphens flags (state.add (.single '-')) rest
    else if flags.freeSpacing && isWhiteSpace c then readHyphens flags state rest
    else (state, c :: rest)

/-- The start of a class behind its bracket: whether it is negated, the hyphens or the closing
bracket that stand for themselves there, and the rest. -/
def readClassStart (flags : Flags) (cs : List Char) : Bool × ClassState × List Char :=
  let cs := skipSpacing flags cs
  let negated := cs.head? = some '^'
  let cs := if negated then skipSpacing flags (cs.drop 1) else cs
  match readHyphens flags { } cs with
  | (state, ']' :: rest) =>
    if cs.head? = some ']' then (negated, state.add (.single ']'), rest)
    else (negated, state, ']' :: rest)
  | (state, rest) => (negated, state, rest)

/-- The rest of a class up to its closing bracket. -/
def readClassBody (flags : Flags) (negated : Bool) :
    (fuel : Nat) → ClassState → List Char → Read CharClass
  | 0, _, _ => .error .unclosedClass
  | fuel + 1, state, cs =>
    match skipSpacing flags cs with
    | [] => .error .unclosedClass
    | ']' :: rest => .ok (closeClass flags negated (state.result flags), rest)
    | '[' :: rest =>
      match readAsciiClass? flags ('[' :: rest) with
      | some (c, behind) => readClassBody flags negated fuel (state.add c) behind
      | none =>
        let (innerNegated, start, inner) := readClassStart flags rest
        match readClassBody flags innerNegated fuel start inner with
        | .ok (c, behind) => readClassBody flags negated fuel (state.add c) behind
        | .error e => .error e
    | '&' :: '&' :: rest => readClassBody flags negated fuel (state.operate flags .intersection) rest
    | '-' :: '-' :: rest => readClassBody flags negated fuel (state.operate flags .difference) rest
    | '~' :: '~' :: rest =>
      readClassBody flags negated fuel (state.operate flags .symmetricDifference) rest
    | c :: rest =>
      match readRange flags (c :: rest) with
      | .ok (members, behind) => readClassBody flags negated fuel (state.add members) behind
      | .error e => .error e

/-- A class behind its opening bracket. -/
def readClass (flags : Flags) (cs : List Char) : Read CharClass :=
  let (negated, start, rest) := readClassStart flags cs
  readClassBody flags negated (cs.length + 1) start rest

/-! ## Repetition -/

/-- The largest number that a count may have. -/
def maxCount : Nat := Nat.pow 2 32 - 1

/-- A decimal number with white space around it; `none` if there is no digit. -/
def readCount (flags : Flags) (cs : List Char) : Read (Option Nat) :=
  let cs := cs.dropWhile isWhiteSpace
  let takesDigit (c : Char) : Bool := c.isDigit || (flags.freeSpacing && isWhiteSpace c)
  let digits := (cs.takeWhile takesDigit).filter (·.isDigit)
  let rest := (cs.dropWhile takesDigit).dropWhile isWhiteSpace
  let value := digits.foldl (fun n d => n * 10 + (d.toNat - '0'.toNat)) 0
  if digits.isEmpty then .ok (none, rest)
  else if value ≤ maxCount then .ok (some value, rest)
  else .error .invalidCount

/-- The bounds of a counted repetition, behind its opening brace and up to its closing one. -/
def readBounds (flags : Flags) (cs : List Char) :
    Except PatternError ((Nat × Option Nat) × List Char) := do
  let closing (bounds : Nat × Option Nat) : List Char → Read (Nat × Option Nat)
    | '}' :: rest => .ok (bounds, rest)
    | _ => .error .unclosedCount
  let (min, rest) ← readCount flags (skipSpacing flags cs)
  match min, rest with
  | _, [] => .error .unclosedCount
  | none, _ => .error .invalidCount
  | some min, ',' :: behind =>
    match skipSpacing flags behind with
    | [] => .error .unclosedCount
    | '}' :: rest => .ok ((min, none), rest)
    | c :: more =>
      let (max, rest) ← readCount flags (c :: more)
      match max with
      | none => .error .invalidCount
      | some max =>
        if min ≤ max then closing (min, some max) rest else .error .invalidCount
  | some min, rest => closing (min, some min) rest

/-- A `?` behind a repetition makes it lazy. -/
def readGreed (flags : Flags) : List Char → Bool × List Char
  | '?' :: rest => (flags.swapGreed, rest)
  | rest => (!flags.swapGreed, rest)

/-- The items with the last one repeated. -/
def repeatLast (items : List Item) (min : Nat) (max : Option Nat) (greedy : Bool) :
    Except PatternError (List Item) :=
  match items with
  | .expr e :: before => .ok (.expr (e.repeated min max greedy) :: before)
  | _ => .error .nothingToRepeat

/-! ## Groups -/

/-- What the text behind an opening parenthesis begins. -/
inductive GroupStart where
  | capture (name : Option String)
  | scoped (flags : Flags)
  | switch (flags : Flags)

/-- The letters of a group's flags, read up to the `:` or `)` behind them. -/
def readFlags (flags : Flags) (on : Bool) (seen : List Char) : List Char → Read (Flags × List Char)
  | [] => .error .unclosedGroup
  | c :: rest =>
    if c = ':' || c = ')' then
      if seen.head? = some '-' then .error .misplacedFlag else .ok ((flags, seen), c :: rest)
    else if seen.contains c then .error .misplacedFlag
    else if c = '-' then readFlags flags false (c :: seen) rest
    else
      match flags.set c on with
      | some next => readFlags next on (c :: seen) rest
      | none => .error .unknownFlag

/-- A character that a group name may have, at its start or behind it. -/
def isNameChar (atStart : Bool) (c : Char) : Bool :=
  c = '_' || CharTable.alphabetic.contains c ||
    (!atStart &&
      (c = '.' || c = '[' || c = ']' || CharTable.decimalDigit.contains c ||
        CharTable.otherNumber.contains c))

/-- The name of a group, up to its closing angle bracket. -/
def readGroupName (groups : List (Option String)) (cs : List Char) : Read String :=
  let name := cs.takeWhile (· ≠ '>')
  match cs.dropWhile (· ≠ '>'), name with
  | '>' :: rest, first :: others =>
    if isNameChar true first && others.all (isNameChar false) then
      let name := String.ofList name
      if groups.contains (some name) then .error .duplicateGroupName else .ok (name, rest)
    else .error .invalidGroupName
  | _, _ => .error .invalidGroupName

/-- What follows an opening parenthesis, up to the body of the group. -/
def readGroupStart (state : ReaderState) (cs : List Char) : Read GroupStart :=
  let named (rest : List Char) : Read GroupStart :=
    (readGroupName state.groups rest).map fun (name, r) => (.capture (some name), r)
  match skipSpacing state.flags cs with
  | '?' :: '=' :: _ | '?' :: '!' :: _ | '?' :: '<' :: '=' :: _ | '?' :: '<' :: '!' :: _ =>
    .error .lookAround
  | '?' :: 'P' :: '<' :: rest | '?' :: '<' :: rest => named rest
  | '?' :: rest =>
    match readFlags state.flags true [] rest with
    | .ok ((flags, _), ':' :: body) => .ok (.scoped flags, body)
    | .ok ((flags, seen), behind) =>
      if seen.isEmpty then .error .nothingToRepeat else .ok (.switch flags, behind.drop 1)
    | .error e => .error e
  | rest => .ok (.capture none, rest)

/-! ## The whole pattern -/

/-- The expression of a branch, whose items are given last first. -/
def branchOf (items : List Item) : Expr :=
  .sequence (items.reverse.filterMap fun
    | .expr e => some e
    | .flags => none)

/-- The expression of branches, given last first. -/
def alternatives (last : Expr) (before : List Expr) : Expr :=
  before.foldl (fun e earlier => .branch earlier e) last

/-- The expression of an atom under flags. -/
def ofAtom (flags : Flags) : Atom → Expr
  | .char c => .chars (if flags.ignoreCase then .anyCase (.single c) else .single c)
  | .cls c => .chars c
  | .anchor a => .anchor a

/-- The characters that a dot stands for. -/
def dot (flags : Flags) : CharClass :=
  if flags.dotAll then .complement .none
  else if flags.anyLineEnd then .complement (.union (.single '\r') (.single '\n'))
  else .complement (.single '\n')

/-- The condition of `^`. -/
def caret (flags : Flags) : Anchor :=
  if !flags.multiLine then .textStart else if flags.anyLineEnd then .anyLineStart else .lineStart

/-- The condition of `$`. -/
def dollar (flags : Flags) : Anchor :=
  if !flags.multiLine then .textEnd else if flags.anyLineEnd then .anyLineEnd else .lineEnd

/-- Reads branches up to the end of the pattern or the `)` of the group that they stand in. The
branches before the current one and the items of the current one are given last first. -/
def readBranches :
    (fuel : Nat) → ReaderState → List Expr → List Item → List Char → Read (Expr × ReaderState)
  | 0, _, _, _, _ => .error .unclosedGroup
  | fuel + 1, state, branches, items, cs =>
    let flags := state.flags
    let push (e : Expr) (rest : List Char) : Read (Expr × ReaderState) :=
      readBranches fuel state branches (.expr e :: items) rest
    let repetition (min : Nat) (max : Option Nat) (rest : List Char) : Read (Expr × ReaderState) :=
      let (greedy, rest) := readGreed flags rest
      match repeatLast items min max greedy with
      | .ok items => readBranches fuel state branches items rest
      | .error e => .error e
    match skipSpacing flags cs with
    | [] => .ok ((alternatives (branchOf items) branches, state), [])
    | ')' :: rest => .ok ((alternatives (branchOf items) branches, state), ')' :: rest)
    | '|' :: rest => readBranches fuel state (branchOf items :: branches) [] rest
    | '(' :: rest =>
      match readGroupStart state rest with
      | .error e => .error e
      | .ok (.switch flags, behind) =>
        readBranches fuel { state with flags := flags } branches (.flags :: items) behind
      | .ok (start, body) =>
        let (inner, wrap) : ReaderState × (Expr → Expr) :=
          match start with
          | .capture name =>
            ({ state with groups := state.groups ++ [name] },
              .capture (state.groups.length + 1))
          | .scoped flags | .switch flags => ({ state with flags := flags }, id)
        match readBranches fuel inner [] [] body with
        | .ok ((e, after), ')' :: behind) =>
          readBranches fuel { after with flags := flags } branches (.expr (wrap e) :: items) behind
        | .ok _ => .error .unclosedGroup
        | .error e => .error e
    | '[' :: rest =>
      match readClass flags rest with
      | .ok (c, behind) => push (.chars c) behind
      | .error e => .error e
    | '?' :: rest => repetition 0 (some 1) rest
    | '*' :: rest => repetition 0 none rest
    | '+' :: rest => repetition 1 none rest
    | '{' :: rest =>
      match readBounds flags rest with
      | .ok ((min, max), behind) => repetition min max (skipSpacing flags behind)
      | .error e => .error e
    | '.' :: rest => push (.chars (dot flags)) rest
    | '^' :: rest => push (.anchor (caret flags)) rest
    | '$' :: rest => push (.anchor (dollar flags)) rest
    | '\\' :: rest =>
      match readEscape flags rest with
      | .ok (atom, behind) => push (ofAtom flags atom) behind
      | .error e => .error e
    | c :: rest => push (ofAtom flags (.char c)) rest

end Reader

/-- The expression of a pattern and the names of its groups, in the order of their opening. -/
def Expr.read (flags : Flags) (pattern : String) :
    Except PatternError (Expr × List (Option String)) :=
  let cs := pattern.toList
  match Reader.readBranches (cs.length + 1) { flags := flags } [] [] cs with
  | .ok ((e, state), []) => .ok (e, state.groups)
  | .ok _ => .error .unopenedGroup
  | .error e => .error e

end StableFormat.Pattern
