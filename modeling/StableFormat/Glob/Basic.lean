/-!
# Globs

A glob describes a set of path names. `?` stands for any one character and `*` for any sequence,
path separators included; `[abc]`, `[a-c]` and `[!a]` are classes; `**` stands for any number of
whole leading components. A glob covers the whole name.
-/

namespace StableFormat

namespace Glob

/-- A member of a class: a character, or a range with both ends included. -/
inductive Member where
  | char (c : Char)
  | range (lo hi : Char)
  deriving DecidableEq, Repr, Inhabited

/-- The character belongs to the member. -/
def Member.contains : Member → Char → Bool
  | char d, c => c = d
  | range lo hi, c => lo ≤ c && c ≤ hi

/-- A part of a glob. -/
inductive Token where
  | char (c : Char)
  | anyChar
  | within (members : List Member)
  | without (members : List Member)
  /-- Any sequence of characters. -/
  | sequence
  /-- Any number of leading components with their separators, or any rest at the end. -/
  | components
  deriving DecidableEq, Repr, Inhabited

/-- What is wrong with a glob. -/
inductive Fault where
  /-- Three or more `*` in a row. -/
  | wildcards
  /-- A `**` that is not a component of its own. -/
  | recursiveWildcards
  /-- A class without a closing bracket or without members. -/
  | range
  deriving DecidableEq, Repr, Inhabited

/-- A fault and its place, counted in characters. -/
structure Error where
  position : Nat
  fault : Fault
  deriving DecidableEq, Repr, Inhabited

/-- The text of an error. -/
def Error.message (e : Error) : String :=
  let reason :=
    match e.fault with
    | .wildcards => "wildcards are either regular `*` or recursive `**`"
    | .recursiveWildcards => "recursive wildcards must form a single path component"
    | .range => "invalid range pattern"
  "Pattern syntax error near position " ++ toString e.position ++ ": " ++ reason

/-- The members of a class; a `-` makes a range only between two members. -/
def readMembers : List Char → List Member
  | lo :: '-' :: hi :: rest => .range lo hi :: readMembers rest
  | c :: rest => .char c :: readMembers rest
  | [] => []

/-- The members of a class up to its closing bracket, of which there is at least one; a bracket in
the first place is a member. -/
def classBody? : List Char → Option (List Char)
  | [] => none
  | first :: rest =>
    let others := rest.takeWhile (· ≠ ']')
    if others.length < rest.length then some (first :: others) else none

/-- A class behind its opening bracket, and the number of characters that it takes there. -/
def readClass? (cs : List Char) : Option (Token × Nat) :=
  match cs with
  | '!' :: rest => (classBody? rest).map fun body => (.without (readMembers body), body.length + 2)
  | rest => (classBody? rest).map fun body => (.within (readMembers body), body.length + 1)

/-- Adds a `**`; directly behind another one it says nothing new. The tokens are last first. -/
def addComponents (tokens : List Token) : List Token :=
  if tokens.length > 1 ∧ tokens.head? = some .components then tokens else .components :: tokens

/-- Reads a glob from a position on, where `before` is the character before it and the tokens read
so far are last first. The next `skip` characters belong to the last token. -/
def readFrom (position skip : Nat) (before : Option Char) (tokens : List Token) :
    List Char → Except Error (List Token)
  | [] => .ok tokens.reverse
  | c :: rest =>
    match skip with
    | skip + 1 => readFrom (position + 1) skip (some c) tokens rest
    | 0 =>
      let onward (skip : Nat) (tokens : List Token) : Except Error (List Token) :=
        readFrom (position + 1) skip (some c) tokens rest
      match c with
      | '?' => onward 0 (.anyChar :: tokens)
      | '*' =>
        match (rest.takeWhile (· = '*')).length with
        | 0 => onward 0 (.sequence :: tokens)
        | 1 =>
          if before.isSome ∧ before ≠ some '/' then
            .error ⟨position - 1, .recursiveWildcards⟩
          else
            match rest.drop 1 with
            | [] => onward 1 (addComponents tokens)
            | '/' :: _ => onward 2 (addComponents tokens)
            | _ => .error ⟨position + 2, .recursiveWildcards⟩
        | _ => .error ⟨position + 2, .wildcards⟩
      | '[' =>
        match readClass? rest with
        | some (token, length) => onward length (token :: tokens)
        | none => .error ⟨position, .range⟩
      | c => onward 0 (.char c :: tokens)

/-- The result of comparing a text with tokens. -/
inductive Outcome where
  | matched
  | mismatched
  /-- The text ended too early, so that no shorter rest of it can match either. -/
  | exhausted
  deriving DecidableEq, Repr, Inhabited

namespace Outcome

/-- A mismatch gives way to another attempt. -/
def orElse (o : Outcome) (next : Unit → Outcome) : Outcome :=
  if o = mismatched then next () else o

end Outcome

/-- Tries the rest of the tokens at every place of the text. -/
def tryAnywhere (rest : List Char → Outcome) : List Char → Outcome
  | [] => rest []
  | c :: cs => (rest (c :: cs)).orElse fun _ => tryAnywhere rest cs

/-- Tries the rest of the tokens behind every separator and at the end of the text. -/
def tryBehindSeparators (rest : List Char → Outcome) : List Char → Outcome
  | [] => rest []
  | c :: cs =>
    (if c = '/' then rest cs else .mismatched).orElse fun _ => tryBehindSeparators rest cs

/-- A token that takes one character takes this one. -/
def Token.takes : Token → Char → Bool
  | char d, c => c = d
  | anyChar, _ => true
  | within members, c => members.any (·.contains c)
  | without members, c => !members.any (·.contains c)
  | sequence, _ | components, _ => false

/-- Compares a whole text with tokens. -/
def compareTokens : List Token → List Char → Outcome
  | [], cs => if cs.isEmpty then .matched else .mismatched
  | .sequence :: tokens, cs => tryAnywhere (compareTokens tokens) cs
  | .components :: tokens, cs =>
    (compareTokens tokens cs).orElse fun _ => tryBehindSeparators (compareTokens tokens) cs
  | _ :: _, [] => .exhausted
  | token :: tokens, c :: cs => if token.takes c then compareTokens tokens cs else .mismatched

end Glob

/-- A glob that has been read. -/
structure Glob where
  tokens : List Glob.Token
  deriving DecidableEq, Repr, Inhabited

namespace Glob

/-- Reads a glob; of several faults the leftmost one counts. -/
def read (text : String) : Except Error Glob :=
  (readFrom 0 0 none [] text.toList).map Glob.mk

/-- The glob covers a path name. -/
def covers (g : Glob) (name : String) : Bool :=
  compareTokens g.tokens name.toList = .matched

end Glob

end StableFormat
