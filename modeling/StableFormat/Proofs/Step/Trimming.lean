import StableFormat.Proofs.Pattern.TrailingBlanks
import StableFormat.Proofs.Step.Layout

/-!
# Proofs: trimming lines

What the step that trims lines gives can be said line by line, without a search: each piece of the
text between line feeds loses the run of spaces and tabs at its end. The matches of `[ \t]+$` that the
step replaces by nothing are the same runs, and it does not matter how they are searched for.
-/

namespace StableFormat

open Text Builtin Pattern

/-- A line without the spaces and tabs at its end; no other white space goes. -/
def trimLine (line : String) : String :=
  String.ofList (line.toList.rdropWhile fun c => c = ' ' || c = '\t')

theorem trimTrailingBlanks_eq_join (text : String) :
    trimTrailingBlanks text = joinStrings '\n' ((splitString '\n' text).map trimLine) := by
  have hpieces : ((splitString '\n' text).map trimLine).map String.toList =
      (splitAtChar '\n' text.toList).map (dropTrailing isBlank) := by
    rw [splitString, List.map_map, List.map_map]
    refine List.map_congr_left fun line _ => ?_
    simp only [Function.comp_def, trimLine, String.toList_ofList]
    exact (dropTrailing_eq_rdropWhile _ _).symm
  rw [joinStrings, hpieces, ← String.toList_inj, toList_trimTrailingBlanks, String.toList_ofList,
    mapLines]

/-- The texts that are left when all matches are removed, however they are searched for. -/
theorem leftmostRemoved_blanks_iff (text : String) (out : List Char) :
    LeftmostRemoved BlanksAtLineEnd text.toList out ↔ out = (trimTrailingBlanks text).toList := by
  have hscan := leftmostRemoved_replaceMatches none text.toList
  rw [trimTrailingBlanks, String.toList_ofList]
  constructor
  · intro h
    exact h.unique hscan
  · rintro rfl
    exact hscan

/-- The step that trims lines never fails. Its text is that of the pattern `[ \t]+$` with every match
replaced by nothing, and line by line what is left without the blanks at the end. -/
theorem trimTrailingWhitespace_linewise :
    ∃ step pattern, StepSpec.trimTrailingWhitespace.build = .ok step ∧
      Pattern.compile "[ \\t]+$" = .ok pattern ∧
      ∀ text, ∃ out, step.transform text = .ok out ∧
        out = joinStrings '\n' ((splitString '\n' text).map trimLine) ∧
        (∀ other, LeftmostRemoved BlanksAtLineEnd text.toList other ↔ other = out.toList) ∧
        pattern.replaceAll (Template.parse "") text = out := by
  refine ⟨_, _, rfl, compile_blanks, fun text => ⟨trimTrailingBlanks text, rfl, ?_, ?_, ?_⟩⟩
  · exact trimTrailingBlanks_eq_join text
  · exact leftmostRemoved_blanks_iff text
  · exact replaceAll_blanks text

/-- A carriage return ends no line: blanks before it are kept, and so is it. -/
example :
    joinStrings '\n' ((splitString '\n' "a \t\r\nb \n").map trimLine) = "a \t\r\nb\n" := by
  decide

end StableFormat
