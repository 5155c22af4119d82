import StableFormat.Config.Basic
import StableFormat.Toml.Document
import StableFormat.Toml.Field

/-!
# Configuration files

The settings that the text of a TOML file gives.
-/

namespace StableFormat

open Toml

/-- A policy for line endings. -/
def lineEndingOf : Value → Except Error LineEnding :=
  Value.asName LineEnding.ofLabel? Value.isVacant

/-- A style of indentation. -/
def styleOf : Value → Except Error Builtin.IndentStyle :=
  Value.asName Builtin.IndentStyle.ofLabel? Value.isEmptyTable

/-- The description of a step: the field `kind` says which fields belong to it. In an array, `kind`
comes first, and there are no more fields than the step has. -/
def StepSpec.ofValue (v : Value) : Except Error StepSpec := do
  let kind ← (← v.record ["kind"]).required "kind" Value.asString
  let fields (names : List String) : Except Error Fields :=
    match v with
    | .array elements =>
      if elements.length ≤ names.length + 1 then v.record ("kind" :: names)
      else .error (.wrongType "a step")
    | _ => v.record names
  match kind with
  | "trim-trailing-whitespace" => do
    let _ ← fields []
    return .trimTrailingWhitespace
  | "end-with-newline" => do
    let _ ← fields []
    return .endWithNewline
  | "replace-regex" => do
    let fields ← fields ["name", "pattern", "replacement"]
    let name ← fields.required "name" Value.asString
    let pattern ← fields.required "pattern" Value.asString
    return .replacePattern name pattern (← fields.required "replacement" Value.asString)
  | "indent" => do
    let fields ← fields ["style", "width"]
    let style ← fields.orElse "style" styleOf .spaces
    return .indent style (← fields.orElse "width" Value.asNat defaultIndentWidth)
  | _ => .error (.unknownName kind)

/-- A rule that keeps a step from some paths. -/
def SkipRule.ofValue (v : Value) : Except Error SkipRule := do
  let fields ← v.record ["step", "path"]
  return ⟨← fields.required "step" Value.asString, ← fields.required "path" Value.asString⟩

/-- The field names of a format, in order. -/
def FormatConfig.fieldNames : List String :=
  ["name", "include", "exclude", "steps", "skip_steps", "skip_paths", "skip",
    "ignore_errors_for_steps", "ignore_errors_for_paths", "line_ending"]

/-- A format. -/
def FormatConfig.ofValue (v : Value) : Except Error FormatConfig := do
  let fields ← v.record fieldNames
  let name ← fields.required "name" Value.asString
  let included ← fields.strings "include"
  let excluded ← fields.strings "exclude"
  let steps ← fields.orElse "steps" (Value.asList StepSpec.ofValue) []
  let skipSteps ← fields.strings "skip_steps"
  let skipPaths ← fields.strings "skip_paths"
  let skip ← fields.orElse "skip" (Value.asList SkipRule.ofValue) []
  let ignoreErrorSteps ← fields.strings "ignore_errors_for_steps"
  let ignoreErrorPaths ← fields.strings "ignore_errors_for_paths"
  let lineEnding ← fields.optional "line_ending" lineEndingOf
  return ⟨name, included, excluded, steps, skipSteps, skipPaths, skip, ignoreErrorSteps,
    ignoreErrorPaths, lineEnding⟩

/-- The settings of a document. -/
def PartialConfig.ofTable (t : Table) : Except Error PartialConfig := do
  let fields := Table.fields t
  let version ← fields.optional "version" (Value.asNatBelow (Nat.pow 2 32))
  let maxIterations ← fields.optional "max_iterations" Value.asNat
  let maxMessageLines ← fields.optional "max_message_lines" Value.asNat
  let maxFilesToList ← fields.optional "max_files_to_list" Value.asNat
  let paddedCell ← fields.optional "padded_cell" Value.asBool
  let lineEnding ← fields.optional "line_ending" lineEndingOf
  let diagnoseDir ← fields.optional "diagnose_dir" Value.asString
  let formats ← fields.orElse "format" (Value.asList FormatConfig.ofValue) []
  return ⟨version, maxIterations, maxMessageLines, maxFilesToList, paddedCell, lineEnding,
    diagnoseDir, formats⟩

/-- The settings of a text. -/
def PartialConfig.read (text : String) : Except Error PartialConfig := do
  PartialConfig.ofTable (← Toml.read text)

/-- The configuration that one text gives. -/
def Config.read (text : String) : Except Error Config :=
  (PartialConfig.read text).map Config.default.applyPartial

end StableFormat
