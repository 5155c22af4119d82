import Mathlib.Data.List.Induction
import Mathlib.Data.List.Nodup
import StableFormat.Config.Discovery
import StableFormat.Proofs.Config.Validation

/-!
# Proofs: configurations on top of each other

Settings that are laid on a configuration one after the other act like one: of each setting the last
value counts that is given, and of the formats of a name the last one, in the place of the first.
Since the names of the formats stay different, what was put together in this way is never refused
for a name that occurs twice.
-/

namespace StableFormat

namespace PartialConfig

variable {α : Type}

/-- The last value that is given for a setting. -/
def lastGiven (key : PartialConfig → Option α) (settings : List PartialConfig) : Option α :=
  (settings.filterMap key).getLast?

/-- Settings one after the other as one. -/
def together (settings : List PartialConfig) : PartialConfig where
  version := lastGiven version settings
  maxIterations := lastGiven maxIterations settings
  maxMessageLines := lastGiven maxMessageLines settings
  maxFilesToList := lastGiven maxFilesToList settings
  paddedCell := lastGiven paddedCell settings
  lineEnding := lastGiven lineEnding settings
  diagnoseDir := lastGiven diagnoseDir settings
  formats := settings.flatMap formats

/-- Settings that give nothing but formats. -/
def tablesOnly (tables : List FormatConfig) : PartialConfig :=
  { formats := tables }

theorem lastGiven_cons (key : PartialConfig → Option α) (p : PartialConfig)
    (rest : List PartialConfig) : lastGiven key (p :: rest) = (lastGiven key rest).or (key p) := by
  unfold lastGiven
  cases hkey : key p with
  | none => rw [List.filterMap_cons_none hkey, Option.or_none]
  | some value =>
    rw [List.filterMap_cons_some hkey, ← List.singleton_append, List.getLast?_append]
    rfl

/-- What a setting is in the end, taken from the first settings and the rest. -/
theorem getD_lastGiven_cons (key : PartialConfig → Option α) (p : PartialConfig)
    (rest : List PartialConfig) (fallback : α) :
    (lastGiven key (p :: rest)).getD fallback = (lastGiven key rest).getD ((key p).getD fallback) := by
  rw [lastGiven_cons, Option.getD_or]

/-- What later settings give does not depend on the ones before. -/
theorem lastGiven_append {key : PartialConfig → Option α} {p : PartialConfig}
    {later : List PartialConfig} (hp : p ∈ later) (hkey : (key p).isSome = true)
    (before : List PartialConfig) : lastGiven key (before ++ later) = lastGiven key later := by
  unfold lastGiven
  rw [List.filterMap_append, List.getLast?_append]
  obtain ⟨value, hvalue⟩ := Option.isSome_iff_exists.1 hkey
  have hmem : value ∈ later.filterMap key := List.mem_filterMap.2 ⟨p, hp, hvalue⟩
  cases hlast : (later.filterMap key).getLast? with
  | none =>
    rw [List.getLast?_eq_none_iff.1 hlast] at hmem
    cases hmem
  | some last => rfl

/-- The last table of a name among the formats that are given. -/
def tableNamed (name : String) (p : PartialConfig) : Option FormatConfig :=
  (p.formats.filter (·.name = name)).getLast?

theorem lastGiven_tableNamed (name : String) (settings : List PartialConfig) :
    lastGiven (tableNamed name) settings =
      ((settings.flatMap formats).filter (·.name = name)).getLast? := by
  induction settings with
  | nil => rfl
  | cons p rest ih =>
    rw [lastGiven_cons, ih, List.flatMap_cons, List.filter_append, List.getLast?_append]
    rfl

/-- Settings that give formats only do not change what is given. -/
theorem lastGiven_split {key : PartialConfig → Option α} (h : ∀ tables, key (tablesOnly tables) = none)
    (p : PartialConfig) (first last : List (List FormatConfig)) :
    lastGiven key (first.map tablesOnly ++ p :: last.map tablesOnly) = key p := by
  have hnone (pieces : List (List FormatConfig)) : (pieces.map tablesOnly).filterMap key = [] := by
    rw [List.filterMap_map, List.filterMap_eq_nil_iff]
    exact fun tables _ => h tables
  unfold lastGiven
  rw [List.filterMap_append, hnone, List.nil_append]
  cases hkey : key p with
  | none => rw [List.filterMap_cons_none hkey, hnone, List.getLast?_nil]
  | some value => rw [List.filterMap_cons_some hkey, hnone, List.getLast?_singleton]

/-- Tables that are split off are still there together. -/
theorem together_split (p : PartialConfig) (first last : List (List FormatConfig)) :
    together (first.map tablesOnly ++ p :: last.map tablesOnly) =
      { p with formats := first.flatten ++ p.formats ++ last.flatten } := by
  have htables (pieces : List (List FormatConfig)) :
      (pieces.map tablesOnly).flatMap formats = pieces.flatten := by
    rw [List.flatMap_map, List.flatten_eq_flatMap]
    rfl
  unfold together
  rw [lastGiven_split fun _ => rfl, lastGiven_split fun _ => rfl, lastGiven_split fun _ => rfl,
    lastGiven_split fun _ => rfl, lastGiven_split fun _ => rfl, lastGiven_split fun _ => rfl,
    lastGiven_split fun _ => rfl, List.flatMap_append, List.flatMap_cons, htables, htables,
    List.append_assoc]

end PartialConfig

namespace Config

open PartialConfig

variable {c : Config} {f t : FormatConfig} {formats tables : List FormatConfig}

/-- The default configuration with settings on top of it, one after the other. -/
def merge (settings : List PartialConfig) : Config :=
  settings.foldl applyPartial .default

theorem foldl_applyPartial (c : Config) (settings : List PartialConfig) :
    settings.foldl applyPartial c = c.applyPartial (together settings) := by
  induction settings generalizing c with
  | nil => rfl
  | cons p rest ih =>
    rw [List.foldl_cons, ih]
    simp only [applyPartial, together, getD_lastGiven_cons, List.flatMap_cons, List.foldl_append]

/-- Settings can be exchanged for one that says the same. -/
theorem merge_together (before parts after : List PartialConfig) :
    merge (before ++ parts ++ after) = merge (before ++ together parts :: after) := by
  unfold merge
  rw [List.foldl_append, List.foldl_append, foldl_applyPartial _ parts, List.foldl_append,
    List.foldl_cons]

/-! ## Formats -/

/-- The names after one more format: a new name comes last. -/
theorem map_name_mergeFormat (formats : List FormatConfig) (t : FormatConfig) :
    (mergeFormat formats t).map (·.name) =
      if t.name ∈ formats.map (·.name) then formats.map (·.name)
      else formats.map (·.name) ++ [t.name] := by
  induction formats with
  | nil => rfl
  | cons first rest ih =>
    unfold mergeFormat
    by_cases hfirst : first.name = t.name
    · rw [if_pos hfirst, List.map_cons, List.map_cons, hfirst, if_pos List.mem_cons_self]
    · rw [if_neg hfirst, List.map_cons, List.map_cons, ih]
      have hmem : t.name ∈ first.name :: rest.map (·.name) ↔ t.name ∈ rest.map (·.name) := by
        rw [List.mem_cons, or_iff_right (Ne.symm hfirst)]
      by_cases hrest : t.name ∈ rest.map (·.name)
      · rw [if_pos hrest, if_pos (hmem.2 hrest)]
      · rw [if_neg hrest, if_neg (mt hmem.1 hrest), List.cons_append]

theorem nodup_mergeFormat (h : (formats.map (·.name)).Nodup) :
    ((mergeFormat formats t).map (·.name)).Nodup := by
  rw [map_name_mergeFormat]
  split
  · exact h
  · next hnew =>
    rw [← List.concat_eq_append]
    exact h.concat hnew

/-- The format takes the place of the one with its name. -/
theorem mem_mergeFormat (h : (formats.map (·.name)).Nodup) :
    f ∈ mergeFormat formats t ↔ f = t ∨ f ∈ formats ∧ f.name ≠ t.name := by
  induction formats with
  | nil => simp [mergeFormat]
  | cons first rest ih =>
    rw [List.map_cons, List.nodup_cons] at h
    unfold mergeFormat
    by_cases hfirst : first.name = t.name
    · rw [if_pos hfirst, List.mem_cons]
      refine or_congr_right ⟨fun hf => ⟨List.mem_cons_of_mem _ hf, ?_⟩, ?_⟩
      · intro hname
        exact h.1 (hfirst.trans hname.symm ▸ List.mem_map_of_mem hf)
      · rintro ⟨hf, hname⟩
        rcases List.mem_cons.1 hf with rfl | hf
        · exact absurd hfirst hname
        · exact hf
    · rw [if_neg hfirst, List.mem_cons, ih h.2, List.mem_cons]
      constructor
      · rintro (rfl | rfl | ⟨hf, hname⟩)
        · exact .inr ⟨.inl rfl, hfirst⟩
        · exact .inl rfl
        · exact .inr ⟨.inr hf, hname⟩
      · rintro (rfl | ⟨rfl | hf, hname⟩)
        · exact .inr (.inl rfl)
        · exact .inl rfl
        · exact .inr (.inr ⟨hf, hname⟩)

theorem nodup_foldl_mergeFormat (tables : List FormatConfig) :
    ((tables.foldl mergeFormat []).map (·.name)).Nodup := by
  induction tables using List.reverseRecOn with
  | nil => exact List.nodup_nil
  | append_singleton tables t ih =>
    rw [List.foldl_concat]
    exact nodup_mergeFormat ih

theorem eraseDups_concat (names : List String) (name : String) :
    (names ++ [name]).eraseDups =
      if name ∈ names then names.eraseDups else names.eraseDups ++ [name] := by
  rw [List.eraseDups_append]
  by_cases hold : name ∈ names
  · have hnone : [name].removeAll names = [] := by simp [List.removeAll, hold]
    rw [if_pos hold, hnone, List.eraseDups_nil, List.append_nil]
  · have hnew : [name].removeAll names = [name] := by simp [List.removeAll, hold]
    rw [if_neg hold, hnew]
    rfl

/-- The names stand in the order in which they come first. -/
theorem map_name_foldl_mergeFormat (tables : List FormatConfig) :
    (tables.foldl mergeFormat []).map (·.name) = (tables.map (·.name)).eraseDups := by
  induction tables using List.reverseRecOn with
  | nil => rfl
  | append_singleton tables t ih =>
    rw [List.foldl_concat, map_name_mergeFormat, ih, List.map_append, List.map_singleton,
      eraseDups_concat]
    by_cases hold : t.name ∈ tables.map (·.name)
    · rw [if_pos (List.mem_eraseDups.2 hold), if_pos hold]
    · rw [if_neg (mt List.mem_eraseDups.1 hold), if_neg hold]

/-- A format is the last table of its name. -/
theorem mem_foldl_mergeFormat (tables : List FormatConfig) :
    f ∈ tables.foldl mergeFormat [] ↔
      (tables.filter (·.name = f.name)).getLast? = some f := by
  induction tables using List.reverseRecOn with
  | nil => simp
  | append_singleton tables t ih =>
    rw [List.foldl_concat, mem_mergeFormat (nodup_foldl_mergeFormat tables), List.filter_append]
    by_cases hname : t.name = f.name
    · have hlast : [t].filter (·.name = f.name) = [t] := by simp [hname]
      rw [hlast, List.getLast?_concat, Option.some_inj]
      constructor
      · rintro (rfl | ⟨-, hne⟩)
        · rfl
        · exact absurd hname.symm hne
      · rintro rfl
        exact .inl rfl
    · have hother : [t].filter (·.name = f.name) = [] := by simp [hname]
      rw [hother, List.append_nil, ← ih]
      constructor
      · rintro (rfl | ⟨hf, -⟩)
        · exact absurd rfl hname
        · exact hf
      · exact fun hf => .inr ⟨hf, Ne.symm hname⟩

theorem formats_merge (settings : List PartialConfig) :
    (merge settings).formats = (settings.flatMap (·.formats)).foldl mergeFormat [] := by
  unfold merge
  rw [foldl_applyPartial]
  rfl

/-! ## Where configurations come from -/

/-- The settings of a file, if it can be read. -/
def settingsIn? (env : Environment) (t : FileTree) (path : Pathname) : Option PartialConfig :=
  (t.readText (env.absolute path)).toOption.bind fun text => (PartialConfig.read text).toOption

/-- A file that cannot be read does not count. -/
theorem applyFile_eq_foldl (env : Environment) (t : FileTree) (c : Config) (path : Pathname) :
    applyFile env t c path = (settingsIn? env t path).toList.foldl applyPartial c := by
  unfold applyFile settingsIn?
  cases t.readText (env.absolute path) with
  | error e => rfl
  | ok text =>
    simp only [Except.toOption, Option.bind_some]
    cases PartialConfig.read text with
    | error e => rfl
    | ok p => rfl

theorem discovered_eq_merge (env : Environment) (t : FileTree) (start : Pathname) :
    discovered env t start = merge ((discover env t start).filterMap (settingsIn? env t)) := by
  have hfile : applyFile env t = fun c path =>
      (settingsIn? env t path).toList.foldl applyPartial c := by
    funext c path
    exact applyFile_eq_foldl env t c path
  unfold discovered merge
  rw [List.filterMap_eq_flatMap_toList, List.foldl_flatMap, hfile]

/-- A text is the list of its statements, unless it begins with a mark. -/
theorem read_of_statements {text : String} {first : Char} {statements : List Toml.Statement}
    {draft : Toml.Draft} (hfirst : text.toList.head? = some first) (hmark : first ≠ '\uFEFF')
    (hread : Toml.readStatements (text.toList.length + 1) [] text.toList = .ok statements)
    (hdraft : statements.foldlM Toml.Draft.add { } = .ok draft) :
    Toml.read text = .ok (Toml.Node.toTable draft.entries) := by
  unfold Toml.read
  split
  · next rest heq =>
    rw [heq] at hfirst
    exact absurd (Option.some.inj hfirst).symm hmark
  · show (do
      let statements ← Toml.readStatements (text.toList.length + 1) [] text.toList
      let draft ← statements.foldlM Toml.Draft.add { }
      return Toml.Node.toTable draft.entries) = _
    rw [bind_eq_ok]
    refine ⟨statements, hread, ?_⟩
    rw [bind_eq_ok]
    exact ⟨draft, hdraft, rfl⟩

theorem read_eq_merge {text : String} {c : Config} (h : Config.read text = .ok c) :
    ∃ p, PartialConfig.read text = .ok p ∧ c = merge [p] := by
  unfold Config.read at h
  cases hread : PartialConfig.read text with
  | error e =>
    rw [hread] at h
    cases h
  | ok p =>
    rw [hread] at h
    exact ⟨p, rfl, (Except.ok.inj h).symm⟩

theorem load_eq_merge {env : Environment} {t : FileTree} {path : Pathname} {c : Config}
    (h : load env t path = .ok c) : ∃ p, settingsIn? env t path = some p ∧ c = merge [p] := by
  unfold load at h
  split at h
  · cases h
  · next text htext =>
    split at h
    · next c' hread =>
      obtain rfl := Except.ok.inj h
      obtain ⟨p, hp, hmerge⟩ := read_eq_merge hread
      refine ⟨p, ?_, hmerge⟩
      unfold settingsIn?
      rw [htext, Except.toOption, Option.bind_some, hp]
      rfl
    · cases h

/-- What is put together of settings never has a name twice. -/
theorem validate_merge_ne (settings : List PartialConfig) (name : String) :
    (merge settings).validate ≠ .error (.duplicateFormat name) := by
  refine validate_ne_duplicateFormat ?_ name
  rw [formats_merge]
  exact nodup_foldl_mergeFormat _

/-- Laid on top of each other, settings count with the last value that is given, and with the default
if none is. The names of the formats are the names of all tables in the order in which they come
first, each once, and the format of a name is the last table of that name as it stands. Settings can
be exchanged for one that gives the same together; so it does not matter over how many of them the
tables of one are split. What is read from a text or a file, or found on the way to a path, is put
together in this way, and never refused for a name that occurs twice. -/
theorem merge_last_wins :
    (∀ settings : List PartialConfig,
      let merged := merge settings
      let tables := settings.flatMap (·.formats)
      merged.version = (lastGiven (·.version) settings).getD default.version ∧
      merged.maxIterations = (lastGiven (·.maxIterations) settings).getD default.maxIterations ∧
      merged.maxMessageLines =
        (lastGiven (·.maxMessageLines) settings).getD default.maxMessageLines ∧
      merged.maxFilesToList = (lastGiven (·.maxFilesToList) settings).getD default.maxFilesToList ∧
      merged.paddedCell = (lastGiven (·.paddedCell) settings).getD default.paddedCell ∧
      merged.lineEnding = (lastGiven (·.lineEnding) settings).getD default.lineEnding ∧
      merged.diagnoseDir = (lastGiven (·.diagnoseDir) settings).getD default.diagnoseDir ∧
      merged.formats.map (·.name) = (tables.map (·.name)).eraseDups ∧
      (merged.formats.map (·.name)).Nodup ∧
      ∀ f, f ∈ merged.formats ↔ (tables.filter (·.name = f.name)).getLast? = some f) ∧
    (∀ before parts after,
      merge (before ++ parts ++ after) = merge (before ++ together parts :: after)) ∧
    (∀ (before after : List PartialConfig) (p : PartialConfig)
      (first last : List (List FormatConfig)),
      merge (before ++ (first.map tablesOnly ++ p :: last.map tablesOnly) ++ after) =
        merge (before ++ { p with formats := first.flatten ++ p.formats ++ last.flatten } ::
          after)) ∧
    (∀ text c, Config.read text = .ok c →
      (∃ p, PartialConfig.read text = .ok p ∧ c = merge [p]) ∧
        ∀ name, c.validate ≠ .error (.duplicateFormat name)) ∧
    (∀ env t path c, load env t path = .ok c →
      (∃ p, settingsIn? env t path = some p ∧ c = merge [p]) ∧
        ∀ name, c.validate ≠ .error (.duplicateFormat name)) ∧
    (∀ env t start,
      discovered env t start = merge ((discover env t start).filterMap (settingsIn? env t)) ∧
        ∀ name, (discovered env t start).validate ≠ .error (.duplicateFormat name)) := by
  refine ⟨?_, ?_, ?_, ?_, ?_, ?_⟩
  · intro settings merged tables
    have hmerged : merged = default.applyPartial (together settings) :=
      foldl_applyPartial default settings
    have hformats : merged.formats = tables.foldl mergeFormat [] := formats_merge settings
    rw [hformats, hmerged]
    exact ⟨rfl, rfl, rfl, rfl, rfl, rfl, rfl, map_name_foldl_mergeFormat tables,
      nodup_foldl_mergeFormat tables, fun f => mem_foldl_mergeFormat tables⟩
  · intro before parts after
    exact merge_together before parts after
  · intro before after p first last
    rw [merge_together, together_split]
  · intro text c hread
    obtain ⟨p, hp, rfl⟩ := read_eq_merge hread
    exact ⟨⟨p, hp, rfl⟩, validate_merge_ne [p]⟩
  · intro env t path c hload
    obtain ⟨p, hp, rfl⟩ := load_eq_merge hload
    exact ⟨⟨p, hp, rfl⟩, validate_merge_ne [p]⟩
  · intro env t start
    have hmerge := discovered_eq_merge env t start
    refine ⟨hmerge, fun name => ?_⟩
    rw [hmerge]
    exact validate_merge_ne _ name

/-- A text in which a name occurs twice. -/
def doubledText : String :=
  "padded_cell=true\n[[format]]\nname=\"a\"\n[[format]]\nname=\"b\"\n" ++
    "[[format]]\nname=\"a\"\nskip_steps=[\"x\"]"

/-- What `doubledText` gives. -/
def doubled : PartialConfig where
  paddedCell := some true
  formats := [{ name := "a" }, { name := "b" }, { name := "a", skipSteps := ["x"] }]

theorem read_doubledText : PartialConfig.read doubledText = .ok doubled := by
  have hstatements : Toml.readStatements (doubledText.toList.length + 1) [] doubledText.toList =
      .ok [.entry ⟨[], "padded_cell"⟩ (.boolean true),
        .element ⟨[], "format"⟩, .entry ⟨[], "name"⟩ (.string "a"),
        .element ⟨[], "format"⟩, .entry ⟨[], "name"⟩ (.string "b"),
        .element ⟨[], "format"⟩, .entry ⟨[], "name"⟩ (.string "a"),
        .entry ⟨[], "skip_steps"⟩ (.array [.string "x"])] := by
    rfl
  rw [PartialConfig.read, read_of_statements (by rfl) (by decide) hstatements rfl]
  rfl

/-- The second table of the name takes the place of the first, so that the text can be used as far as
the names go; and it is the same if its tables come one by one. -/
theorem merge_last_wins_doubled :
    Config.read doubledText = .ok (merge [doubled]) ∧
      (merge [doubled]).paddedCell = true ∧
      (merge [doubled]).formats.map (·.name) = ["a", "b"] ∧
      { name := "a", skipSteps := ["x"] } ∈ (merge [doubled]).formats ∧
      { name := "a" } ∉ (merge [doubled]).formats ∧
      (∀ name, (merge [doubled]).validate ≠ .error (.duplicateFormat name)) ∧
      merge [tablesOnly [{ name := "a" }], { doubled with formats := [{ name := "b" }] },
        tablesOnly [{ name := "a", skipSteps := ["x"] }]] = merge [doubled] := by
  have hread : Config.read doubledText = .ok (merge [doubled]) := by
    rw [Config.read, read_doubledText]
    rfl
  obtain ⟨hlast, -, hsplit, hvalid, -⟩ := merge_last_wins
  obtain ⟨-, -, -, -, hpadded, -, -, hnames, -, hformats⟩ := hlast [doubled]
  refine ⟨hread, hpadded, ?_, (hformats _).2 (by decide), ?_, ?_, ?_⟩
  · rw [hnames]
    decide
  · rw [hformats]
    decide
  · exact (hvalid doubledText _ hread).2
  · exact hsplit [] [] { doubled with formats := [{ name := "b" }] } [[{ name := "a" }]]
      [[{ name := "a", skipSteps := ["x"] }]]

end Config

end StableFormat
