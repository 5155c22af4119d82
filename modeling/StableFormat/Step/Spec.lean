import StableFormat.Pattern.Basic
import StableFormat.Step.Builtin
import StableFormat.Step.Chain

/-!
# Described steps

A step as a configuration describes it, and the step that the description stands for.
-/

namespace StableFormat

open Builtin

/-- The description of a step. -/
inductive StepSpec where
  | trimTrailingWhitespace
  | endWithNewline
  /-- Replaces every match of a pattern; the step has a name of its own. -/
  | replacePattern (name pattern replacement : String)
  /-- Makes indentation anew with tab stops every `width` columns. -/
  | indent (style : IndentStyle) (width : Nat)
  deriving DecidableEq, Repr, Inhabited

namespace StepSpec

/-- The width of an indentation that does not give one. -/
def defaultIndentWidth : Nat := 4

/-- The kind of a step in configuration files. -/
def kind : StepSpec → String
  | trimTrailingWhitespace => "trim-trailing-whitespace"
  | endWithNewline => "end-with-newline"
  | replacePattern .. => "replace-regex"
  | indent .. => "indent"

/-- The name of the step in errors and exemptions. -/
def name : StepSpec → String
  | replacePattern name _ _ => name
  | spec => spec.kind

/-- The step of a description; only a pattern can be faulty. A width of zero counts as one, and there
is no greatest width: with a large one the columns of a text may leave their range. -/
def build : StepSpec → Except Pattern.PatternError Step
  | trimTrailingWhitespace => .ok (.ofFunction "trim-trailing-whitespace" trimTrailingBlanks)
  | endWithNewline => .ok (.ofFunction "end-with-newline" Builtin.endWithNewline)
  | replacePattern name pattern replacement =>
    (Pattern.compile pattern).map fun compiled =>
      .ofFunction name (compiled.replaceAll (Pattern.Template.parse replacement))
  | indent style width => .ok (.ofChecked "indent" (reindent style (max width 1)))

end StepSpec

end StableFormat
