import StableFormat.Config.Format
import StableFormat.Proofs.Checked

/-!
# Proofs: a valid configuration can be used

A configuration is checked as a whole before any of its formats runs. The check reads every format
with one line ending, and a run reads it again with the line ending of the configuration; the line
ending has no part in whether a format can be read. An error of a format tells its name and the text
that is at fault.
-/

namespace StableFormat

theorem exists_of_mapM_eq_error {ε α β : Type} {f : α → Except ε β} {l : List α} {e : ε}
    (h : l.mapM f = .error e) : ∃ a ∈ l, f a = .error e := by
  induction l with
  | nil => cases h
  | cons a rest ih =>
    rw [List.mapM_cons] at h
    rcases bind_eq_error.1 h with hfirst | ⟨b, -, hothers⟩
    · exact ⟨a, List.mem_cons_self, hfirst⟩
    · rcases bind_eq_error.1 hothers with hrest | ⟨bs, -, ⟨⟩⟩
      obtain ⟨a', ha', he⟩ := ih hrest
      exact ⟨a', List.mem_cons_of_mem _ ha', he⟩

namespace FormatConfig

variable {f : FormatConfig} {ending : LineEnding} {formatter : Formatter} {ready : ReadyFormat}
  {selection : Selection} {e : ConfigError}

theorem build_eq_ok (h : f.build ending = .ok formatter) :
    formatter.name = f.name ∧
      ∀ other, f.build other = .ok { formatter with lineEnding := f.lineEnding.getD other } := by
  rw [build, bind_eq_ok] at h
  obtain ⟨chain, hchain, hformatter⟩ := h
  obtain rfl := Except.ok.inj hformatter
  refine ⟨rfl, ?_⟩
  intro other
  rw [build, hchain]
  rfl

theorem prepare_eq_ok : f.prepare ending = .ok ready ↔
    f.build ending = .ok ready.formatter ∧ f.exemptions = .ok ready.exemptions ∧
      f.selection = .ok ready.selection := by
  simp only [prepare, bind_eq_ok]
  constructor
  · rintro ⟨formatter, hbuild, exemptions, hexemptions, selection, hselection, heq⟩
    obtain rfl := Except.ok.inj heq
    exact ⟨hbuild, hexemptions, hselection⟩
  · rintro ⟨hbuild, hexemptions, hselection⟩
    exact ⟨_, hbuild, _, hexemptions, _, hselection, rfl⟩

/-- The texts of all globs of a format. -/
def globs (f : FormatConfig) : List String :=
  f.skipPaths ++ f.skip.map (·.path) ++ f.ignoreErrorPaths ++ f.included ++ f.excluded

/-- What can be wrong with a format. Every error names it, and the text that is at fault. -/
inductive Fault (f : FormatConfig) : ConfigError → Prop where
  | noSteps (h : f.steps = []) : f.Fault (.emptyFormat f.name)
  | pattern {spec : StepSpec} {error : Pattern.PatternError} (hmem : spec ∈ f.steps)
      (h : spec.build = .error error) : f.Fault (.invalidPattern f.name spec.name error)
  | glob {text : String} {error : Glob.Error} (hmem : text ∈ f.globs)
      (h : Glob.read text = .error error) : f.Fault (.invalidGlob f.name text error)

theorem fault_of_build (h : f.build ending = .error e) : f.Fault e := by
  rw [build] at h
  rcases bind_eq_error.1 h with hchain | ⟨chain, -, ⟨⟩⟩
  obtain ⟨spec, hmem, hstep⟩ := exists_of_mapM_eq_error hchain
  unfold buildStep at hstep
  split at hstep
  · cases hstep
  · next error hbuild =>
    obtain rfl := Except.error.inj hstep
    exact .pattern hmem hbuild

theorem fault_of_readGlob {text : String} (hmem : text ∈ f.globs)
    (h : f.readGlob text = .error e) : f.Fault e := by
  unfold readGlob at h
  split at h
  · cases h
  · next error hread =>
    obtain rfl := Except.error.inj h
    exact .glob hmem hread

theorem fault_of_readGlobs {texts : List String} (hsub : texts ⊆ f.globs)
    (h : f.readGlobs texts = .error e) : f.Fault e := by
  obtain ⟨text, hmem, hread⟩ := exists_of_mapM_eq_error h
  exact fault_of_readGlob (hsub hmem) hread

theorem fault_of_exemptions (h : f.exemptions = .error e) : f.Fault e := by
  rw [exemptions] at h
  rcases bind_eq_error.1 h with hpaths | ⟨_, -, h⟩
  · exact fault_of_readGlobs (fun _ h => by simp [globs, h]) hpaths
  rcases bind_eq_error.1 h with hrules | ⟨_, -, h⟩
  · obtain ⟨rule, hrule, hread⟩ := exists_of_mapM_eq_error hrules
    rcases bind_eq_error.1 hread with hread | ⟨_, -, ⟨⟩⟩
    have hmem : rule.path ∈ f.skip.map (·.path) := List.mem_map_of_mem hrule
    exact fault_of_readGlob (by simp [globs, hmem]) hread
  rcases bind_eq_error.1 h with hpaths | ⟨_, -, ⟨⟩⟩
  exact fault_of_readGlobs (fun _ h => by simp [globs, h]) hpaths

theorem fault_of_selection (h : f.selection = .error e) : f.Fault e := by
  rw [FormatConfig.selection] at h
  rcases bind_eq_error.1 h with hincluded | ⟨_, -, h⟩
  · exact fault_of_readGlobs (fun _ h => by simp [globs, h]) hincluded
  rcases bind_eq_error.1 h with hexcluded | ⟨_, -, ⟨⟩⟩
  exact fault_of_readGlobs (fun _ h => by simp [globs, h]) hexcluded

theorem fault_of_prepare (h : f.prepare ending = .error e) : f.Fault e := by
  rw [prepare] at h
  rcases bind_eq_error.1 h with hbuild | ⟨_, -, h⟩
  · exact fault_of_build hbuild
  rcases bind_eq_error.1 h with hexemptions | ⟨_, -, h⟩
  · exact fault_of_exemptions hexemptions
  rcases bind_eq_error.1 h with hselection | ⟨_, -, ⟨⟩⟩
  exact fault_of_selection hselection

/-- A format that is refused has a fault. -/
theorem fault_of_validate (h : f.validate = .error e) : f.Fault e := by
  rw [validate] at h
  split at h
  · next hempty =>
    obtain rfl := Except.error.inj h
    exact .noSteps (List.isEmpty_iff.1 hempty)
  · cases hready : f.prepare .unix with
    | ok ready =>
      rw [hready] at h
      cases h
    | error e' =>
      rw [hready] at h
      obtain rfl := Except.error.inj h
      exact fault_of_prepare hready

end FormatConfig

namespace Config

variable {c : Config} {f : FormatConfig} {formats : List FormatConfig} {names seen : List String}
  {e : ConfigError}

/-- With different names, only a fault of a format makes the formats unusable. -/
theorem fault_of_validateFormats (hnodup : (formats.map (·.name)).Nodup)
    (hseen : ∀ f ∈ formats, f.name ∉ seen) (h : validateFormats seen formats = .error e) :
    ∃ f ∈ formats, f.Fault e := by
  induction formats generalizing seen with
  | nil => cases h
  | cons first rest ih =>
    rw [List.map_cons, List.nodup_cons] at hnodup
    have hnew : ¬ seen.contains first.name = true := by
      rw [List.contains_iff_mem]
      exact hseen first List.mem_cons_self
    rw [validateFormats, if_neg hnew] at h
    rcases bind_eq_error.1 h with hfirst | ⟨⟨⟩, -, hrest⟩
    · exact ⟨first, List.mem_cons_self, FormatConfig.fault_of_validate hfirst⟩
    · have hothers : ∀ f ∈ rest, f.name ∉ first.name :: seen := by
        intro f hf hmem
        rcases List.mem_cons.1 hmem with heq | hmem
        · exact hnodup.1 (heq ▸ List.mem_map_of_mem hf)
        · exact hseen f (List.mem_cons_of_mem _ hf) hmem
      obtain ⟨f, hf, hfault⟩ := ih hnodup.2 hothers hrest
      exact ⟨f, List.mem_cons_of_mem _ hf, hfault⟩

theorem unsupported_of_validateVersion {version : Nat} (h : validateVersion version = .error e) :
    e = .unsupportedVersion version := by
  unfold validateVersion at h
  split at h
  · cases h
  · exact (Except.error.inj h).symm

theorem below_of_atLeast {key : String} {minimum value : Nat}
    (h : atLeast key minimum value = .error e) : e = .belowMinimum key minimum value := by
  unfold atLeast at h
  split at h
  · exact (Except.error.inj h).symm
  · cases h

/-- What makes a configuration unusable whose formats have different names. -/
theorem validate_eq_error (hnodup : (c.formats.map (·.name)).Nodup) (h : c.validate = .error e) :
    e = .unsupportedVersion c.version ∨
      (∃ key minimum value, e = .belowMinimum key minimum value) ∨
      ∃ f ∈ c.formats, f.Fault e := by
  unfold validate at h
  rcases bind_eq_error.1 h with hversion | ⟨_, -, h⟩
  · exact .inl (unsupported_of_validateVersion hversion)
  rcases bind_eq_error.1 h with hleast | ⟨_, -, h⟩
  · exact .inr (.inl ⟨_, _, _, below_of_atLeast hleast⟩)
  rcases bind_eq_error.1 h with hleast | ⟨_, -, h⟩
  · exact .inr (.inl ⟨_, _, _, below_of_atLeast hleast⟩)
  rcases bind_eq_error.1 h with hleast | ⟨_, -, h⟩
  · exact .inr (.inl ⟨_, _, _, below_of_atLeast hleast⟩)
  · exact .inr (.inr (fault_of_validateFormats hnodup (fun _ _ => List.not_mem_nil) h))

/-- Different names are never taken for the same. -/
theorem validate_ne_duplicateFormat (hnodup : (c.formats.map (·.name)).Nodup) (name : String) :
    c.validate ≠ .error (.duplicateFormat name) := by
  intro h
  rcases validate_eq_error hnodup h with heq | ⟨_, _, _, heq⟩ | ⟨f, -, hfault⟩
  · cases heq
  · cases heq
  · cases hfault

end Config

end StableFormat
