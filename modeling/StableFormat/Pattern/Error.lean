/-!
# Errors of patterns

Why a pattern cannot be compiled.
-/

namespace StableFormat.Pattern

/-- A fault in the text of a pattern. -/
inductive PatternError where
  | unclosedGroup
  | unopenedGroup
  | unclosedClass
  | invalidRange
  | anchorInClass
  | nothingToRepeat
  | unclosedCount
  | invalidCount
  | lookAround
  | backReference
  | unknownEscape
  | invalidCodePoint
  | unknownFlag
  | misplacedFlag
  | invalidGroupName
  | duplicateGroupName
  | tooLarge
  deriving DecidableEq, Repr, Inhabited

/-- The fault in words. -/
def PatternError.message : PatternError → String
  | unclosedGroup => "unclosed group"
  | unopenedGroup => "unopened group"
  | unclosedClass => "unclosed character class"
  | invalidRange => "invalid character class range"
  | anchorInClass => "invalid escape sequence in a character class"
  | nothingToRepeat => "repetition operator without an expression"
  | unclosedCount => "unclosed counted repetition"
  | invalidCount => "invalid repetition count"
  | lookAround => "look-around is not supported"
  | backReference => "backreferences are not supported"
  | unknownEscape => "unrecognized escape sequence"
  | invalidCodePoint => "invalid code point in an escape sequence"
  | unknownFlag => "unrecognized flag"
  | misplacedFlag => "misplaced or repeated flag"
  | invalidGroupName => "invalid capture group name"
  | duplicateGroupName => "duplicate capture group name"
  | tooLarge => "compiled pattern exceeds the size limit"

end StableFormat.Pattern
