import StableFormat.Step.Chain
import StableFormat.Text.LineEnding

/-!
# Formatters

A formatter is a named chain with a policy for line endings. It is the net transform of a text: the
endings become `\n`, the chain runs, and the policy's ending is written back.
-/

namespace StableFormat

/-- A named chain and the line ending of its results. -/
structure Formatter where
  name : String
  chain : Chain
  lineEnding : LineEnding

namespace Formatter

/-- The net transform, with some failures tolerated. -/
def computeTolerating (formatter : Formatter) (tolerates : StepError → Bool) (text : String) :
    Except StepError String :=
  match formatter.chain.applyTolerating tolerates (LineEnding.toUnix text) with
  | .ok formatted => .ok (formatter.lineEnding.apply formatted text)
  | .error failure => .error failure

/-- The net transform; the first failing step ends it. -/
def compute (formatter : Formatter) (text : String) : Except StepError String :=
  formatter.computeTolerating (fun _ => false) text

end Formatter

end StableFormat
