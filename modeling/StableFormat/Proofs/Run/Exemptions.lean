import StableFormat.Proofs.Run.Storing

/-!
# Proofs: what exemptions do to a file

A file is processed as its exemptions say, step by step: a step that is left out on the file, or that
refuses the text and is tolerated there, leaves the text as it is, and every other failure ends the
run. A collector comes to the same by another way. It takes the steps that are left out from the chain
before anything runs, or keeps the whole chain if no step is ever left out, and tolerates failures by
the name that they carry.
-/

namespace StableFormat

variable {step path text : String}

/-! ## The transform that exemptions prescribe -/

/-- What a step makes of a text of a file under exemptions. -/
def Exemptions.runStep (e : Exemptions) (path : String) (text : String) (step : Step) :
    Except StepError String :=
  if e.skipsStep step.name path then .ok text
  else
    match step.transform text with
    | .ok next => .ok next
    | .error cause =>
      if cause.isRefusal ∧ e.ignoresError step.name path then .ok text
      else .error ⟨step.name, cause⟩

/-- What a format makes of a text of a file under exemptions: with `\n` endings it goes through the
steps in their order, and the ending that the policy finds in the untouched text is written back. -/
def Collector.prescribed (c : Collector) (path text : String) : Except StepError String := do
  let formatted ← c.formatter.chain.foldlM (c.exemptions.runStep path) (LineEnding.toUnix text)
  return c.formatter.lineEnding.apply formatted text

/-! ## Steps that are left out -/

theorem Exemptions.skipsStep_of_not_hasStepSkips (e : Exemptions) (h : e.hasStepSkips = false)
    (step path : String) : e.skipsStep step path = false := by
  have hempty : e.skipSteps = [] ∧ e.skipStepPaths = [] := by
    simpa [hasStepSkips] using h
  rw [skipsStep, hempty.1, hempty.2]
  rfl

theorem Chain.without_of_never {skip : String → Bool} (h : ∀ name, skip name = false)
    (chain : Chain) : chain.without skip = chain := by
  rw [Chain.without, List.filter_eq_self]
  intro step _
  rw [h, Bool.not_false]

/-- A chain that lacks the steps that are left out runs as the whole chain does when these steps do
nothing. Steps with the same name are left out together, but fail each on its own text. -/
theorem Chain.applyTolerating_without (e : Exemptions) (path : String) (chain : Chain)
    (text : String) :
    (chain.without (e.skipsStep · path)).applyTolerating (fun f => e.ignoresError f.step path) text =
      chain.foldlM (e.runStep path) text := by
  induction chain generalizing text with
  | nil => rfl
  | cons step rest ih =>
    rw [List.foldlM_cons, Exemptions.runStep]
    cases hskip : e.skipsStep step.name path with
    | true =>
      have hwithout : Chain.without (step :: rest) (e.skipsStep · path) =
          Chain.without rest (e.skipsStep · path) := by simp [Chain.without, hskip]
      rw [hwithout, ih, if_pos rfl]
      rfl
    | false =>
      have hwithout : Chain.without (step :: rest) (e.skipsStep · path) =
          step :: Chain.without rest (e.skipsStep · path) := by simp [Chain.without, hskip]
      rw [hwithout, Chain.applyTolerating, Step.run, if_neg (by simp)]
      cases hrun : step.transform text with
      | ok next => exact ih next
      | error cause =>
        -- The next step of both chains starts from the text that the failing one was given.
        by_cases htolerated : cause.isRefusal ∧ e.ignoresError step.name path
        · simp only [Bool.and_eq_true, if_pos htolerated]
          exact ih text
        · simp only [Bool.and_eq_true, if_neg htolerated]
          rfl

namespace Collector

variable (c : Collector)

/-- Whether steps are taken out or the chain is kept as a whole makes no difference. -/
theorem chain_formatterFor (path : String) :
    (c.formatterFor path).chain = c.formatter.chain.without (c.exemptions.skipsStep · path) := by
  rw [formatterFor]
  cases hskips : c.exemptions.hasStepSkips with
  | true => rfl
  | false =>
    have hnever := c.exemptions.skipsStep_of_not_hasStepSkips hskips
    exact (Chain.without_of_never (fun name => hnever name path) _).symm

theorem lineEnding_formatterFor (path : String) :
    (c.formatterFor path).lineEnding = c.formatter.lineEnding := by
  rw [formatterFor]
  split <;> rfl

theorem transformFor_eq_prescribed (path : String) :
    c.transformFor path = c.prescribed path := by
  funext text
  rw [transformFor, Formatter.computeTolerating, prescribed, chain_formatterFor,
    lineEnding_formatterFor, Chain.applyTolerating_without]
  cases c.formatter.chain.foldlM (c.exemptions.runStep path) (LineEnding.toUnix text) with
  | ok formatted => rfl
  | error failure => rfl

/-- A file is skipped exactly if its path is, and any other file is probed, under the bound of the
settings, with the transform that the exemptions prescribe for its path. -/
theorem processFile_eq_prescribed (file : SourceFile) :
    (c.processFile file = .skipped ↔ c.exemptions.skipsPath file.path = true) ∧
    (∀ p, c.processFile file = .probed p ↔ c.exemptions.skipsPath file.path = false ∧
      probe c.settings.maxIterations (c.prescribed file.path) file.content = .ok p) ∧
    ∀ e, c.processFile file = .failed e ↔ c.exemptions.skipsPath file.path = false ∧
      probe c.settings.maxIterations (c.prescribed file.path) file.content = .error e := by
  rw [processFile, transformFor_eq_prescribed]
  cases hskip : c.exemptions.skipsPath file.path with
  | true => simp
  | false =>
    cases hprobe : probe c.settings.maxIterations (c.prescribed file.path) file.content with
    | ok p => simp
    | error e => simp

end Collector

end StableFormat
