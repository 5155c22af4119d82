import StableFormat.Checked

/-!
# Steps and chains

A step is a named transform of texts that may fail. A chain runs steps from left to right; a failure
carries the name of its step. A step that refuses a text can be tolerated, and then it counts as the
identity. A step whose numbers leave their range ends the program, and that is never tolerated.
-/

namespace StableFormat

/-- Why a step gives no text. -/
inductive StepCause where
  /-- The step refuses the text, in words of its own. -/
  | refused (words : String)
  /-- A number of the step left its range. -/
  | stray (place : Stray)
  deriving DecidableEq, Repr, Inhabited

instance : Coe String StepCause := ⟨.refused⟩

namespace StepCause

/-- The cause in words. -/
def message : StepCause → String
  | refused words => words
  | stray place => place.message

/-- The step has refused the text, and the program goes on. -/
def isRefusal : StepCause → Bool
  | refused _ => true
  | stray _ => false

end StepCause

/-- A step that failed, and why. -/
structure StepError where
  step : String
  cause : StepCause
  deriving DecidableEq, Repr, Inhabited

namespace StepError

/-- The text of a failure. -/
def message (e : StepError) : String :=
  "step '" ++ e.step ++ "' failed: " ++ e.cause.message

/-- The place at which a number left its range, if that is why the step failed. -/
def stray? (e : StepError) : Option Stray :=
  match e.cause with
  | .refused _ => none
  | .stray place => some place

end StepError

/-- A named transform of texts. -/
structure Step where
  name : String
  transform : String → Except StepCause String

namespace Step

/-- A step that cannot fail. -/
def ofFunction (name : String) (f : String → String) : Step :=
  ⟨name, fun s => .ok (f s)⟩

/-- A step that never refuses a text, but whose numbers can leave their range. -/
def ofChecked (name : String) (f : String → Checked String) : Step :=
  ⟨name, fun s => (f s).mapError .stray⟩

/-- Runs a step. If it refuses the text and that is tolerated, the text stays as it is. -/
def run (tolerates : StepError → Bool) (step : Step) (text : String) : Except StepError String :=
  match step.transform text with
  | .ok next => .ok next
  | .error cause =>
    let failure : StepError := ⟨step.name, cause⟩
    if cause.isRefusal && tolerates failure then .ok text else .error failure

end Step

/-- Steps in the order in which they run. The empty chain is the identity. -/
abbrev Chain := List Step

namespace Chain

/-- The names of the steps, in order. -/
def names (chain : Chain) : List String :=
  chain.map (·.name)

/-- The chain without the steps whose name satisfies `skip`. -/
def without (chain : Chain) (skip : String → Bool) : Chain :=
  chain.filter fun step => !skip step.name

/-- Runs the steps in order. A refusal that is tolerated leaves the text as it is, any other failure
ends the run. -/
def applyTolerating (tolerates : StepError → Bool) : Chain → String → Except StepError String
  | [], text => .ok text
  | step :: rest, text =>
    match step.run tolerates text with
    | .ok next => applyTolerating tolerates rest next
    | .error failure => .error failure

/-- Runs the steps in order and stops at the first failure. -/
def apply (chain : Chain) (text : String) : Except StepError String :=
  applyTolerating (fun _ => false) chain text

/-- The tolerated refusals of a run, in order, up to its end or its first other failure. -/
def toleratedFailures (tolerates : StepError → Bool) : Chain → String → List StepError
  | [], _ => []
  | step :: rest, text =>
    match step.transform text with
    | .ok next => toleratedFailures tolerates rest next
    | .error cause =>
      let failure : StepError := ⟨step.name, cause⟩
      if cause.isRefusal && tolerates failure then
        failure :: toleratedFailures tolerates rest text
      else []

end Chain

end StableFormat
