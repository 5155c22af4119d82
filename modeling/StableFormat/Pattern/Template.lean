import StableFormat.Pattern.Search

/-!
# Replacement templates

The text that replaces a match can name the groups of the pattern: `$1` or `$name` takes the longest
run of word characters behind the `$`, `$` with braces takes what stands between them, and `$$` is a
dollar sign. A group that does not exist or took no part in the match gives nothing.
-/

namespace StableFormat.Pattern

/-- A part of a template. -/
inductive TemplatePart where
  | char (c : Char)
  | index (i : Nat)
  | name (n : String)
  deriving DecidableEq, Repr, Inhabited

/-- A replacement text. -/
abbrev Template := List TemplatePart

namespace Template

/-- A character of a reference without braces. -/
def isReferenceChar (c : Char) : Bool :=
  c.isAlphanum || c = '_'

/-- The number that a reference gives, if it is one that fits into 64 bits. -/
def indexOf? (reference : List Char) : Option Nat :=
  let digits := if reference.head? = some '+' then reference.drop 1 else reference
  let value := digits.foldl (fun n d => n * 10 + (d.toNat - '0'.toNat)) 0
  if !digits.isEmpty && digits.all (·.isDigit) && value < Nat.pow 2 64 then some value else none

/-- The group that a reference names. -/
def ofReference (reference : List Char) : TemplatePart :=
  match indexOf? reference with
  | some i => .index i
  | none => .name (String.ofList reference)

/-- The parts of a template text. Of the characters behind a `$`, the first `skip` have been read as
part of a reference. -/
def parseFrom (skip : Nat) : List Char → Template
  | [] => []
  | c :: rest =>
    match skip with
    | skip + 1 => parseFrom skip rest
    | 0 =>
      if c = '$' then
        match rest with
        | '$' :: _ => .char '$' :: parseFrom 1 rest
        | '{' :: inner =>
          let reference := inner.takeWhile (· ≠ '}')
          if reference.length < inner.length then
            ofReference reference :: parseFrom (reference.length + 2) rest
          else .char '$' :: parseFrom 0 rest
        | _ =>
          let reference := rest.takeWhile isReferenceChar
          if reference.isEmpty then .char '$' :: parseFrom 0 rest
          else ofReference reference :: parseFrom reference.length rest
      else .char c :: parseFrom 0 rest

/-- The template of a text. -/
def parse (text : String) : Template :=
  parseFrom 0 text.toList

/-- The characters that a group of a match took. -/
def groupText (text : Array Char) (m : Match) (index : Nat) : List Char :=
  match m.slots[2 * index]?.join, m.slots[2 * index + 1]?.join with
  | some start, some stop => (text.extract start stop).toList
  | _, _ => []

/-- The text of a template for a match; `groups` are the names of the groups from the first on. -/
def expand (template : Template) (groups : List (Option String)) (text : Array Char) (m : Match) :
    List Char :=
  template.flatMap fun
    | .char c => [c]
    | .index i => groupText text m i
    | .name n =>
      match groups.findIdx? (· = some n) with
      | some i => groupText text m (i + 1)
      | none => []

end Template

end StableFormat.Pattern
