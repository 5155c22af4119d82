import StableFormat.CommandLine.Run
import StableFormat.Proofs.Config.Validation

/-!
# Proofs: a refused command changes nothing

The formats of a command run one after the other, and each writes its results before the next one is
read. A command can be refused as a whole all the same, because everything that reading a format can
stumble over has been checked before the first one runs.
-/

namespace StableFormat.CommandLine

variable {env : Environment} {files : FileTree} {arguments : List String} {args : Args} {job : Job}
  {config : Config} {formats : List FormatConfig} {s : Session}

/-! ## Checked commands -/

/-- What is known of a command that has been checked. -/
theorem prepare_eq_ok (h : args.prepare env files = .ok (job, formats)) :
    job.mode = args.mode ∧ args.options.findRoot env files = .ok job.root ∧
      checkFormats job.config args.options.formats = .ok formats := by
  simp only [Args.prepare, bind_eq_ok] at h
  obtain ⟨root, hroot, config, -, chosen, hchosen, heq⟩ := h
  obtain ⟨rfl, rfl⟩ := Prod.mk.inj (Except.ok.inj heq)
  exact ⟨rfl, hroot, hchosen⟩

theorem run_of_prepare (h : args.prepare env files = .ok (job, formats)) :
    args.run env files = job.runFormats { files := files } formats := by
  delta Args.run
  simp only [h]

theorem run_of_refusal {e : RunError} (h : args.prepare env files = .error e) :
    args.run env files = Session.abort { files := files } e := by
  delta Args.run
  simp only [h]

/-! ## Running formats -/

/-- What every format keeps, a run keeps. If a number leaves its range in a format, the run ends with
what it kept up to then. -/
theorem runFormats_files {P : FileTree → Prop} (hstart : P s.files)
    (hstep : ∀ s f ready s', f ∈ formats → f.prepare job.config.lineEnding = .ok ready → P s.files →
      job.runFormat s ready = .ok s' → P s'.files) :
    P (job.runFormats s formats).files := by
  induction formats generalizing s with
  | nil => exact hstart
  | cons f rest ih =>
    rw [Job.runFormats]
    split
    · exact hstart
    · next ready hready =>
      split
      · next s' hrun =>
        have hfirst := hstep s f ready s' List.mem_cons_self hready hstart hrun
        exact ih hfirst fun s g other s' hg => hstep s g other s' (List.mem_cons_of_mem _ hg)
      · exact hstart

/-- The arguments cannot be obeyed, and do not ask for help or for the version either, or the
command that they give cannot be carried out. -/
def IsRefused (env : Environment) (files : FileTree) (arguments : List String) : Prop :=
  (∃ e, Args.read arguments = .error e ∧ e ≠ .helpRequested ∧ e ≠ .versionRequested) ∨
    ∃ args e, Args.read arguments = .ok args ∧ args.prepare env files = .error e

theorem files_of_isRefused (h : IsRefused env files arguments) :
    (run env files arguments).status = 2 ∧ (run env files arguments).files = files := by
  rcases h with ⟨e, hread, hhelp, hversion⟩ | ⟨args, e, hread, hprepare⟩
  · rw [run, hread]
    cases e <;> first | exact ⟨rfl, rfl⟩ | contradiction
  · rw [run, hread]
    simp only [run_of_refusal hprepare]
    exact ⟨rfl, rfl⟩

end StableFormat.CommandLine
