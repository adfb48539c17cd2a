import BlockScribe.Proofs.Record.OutputLine
import BlockScribe.Proofs.Stream.Lines
import BlockScribe.Proofs.Stream.Steps

/-!
# Runs without faults

A run is one pass over the lines of its input, each dealt with on its own.
What it has written when it is done depends on nothing but the outcomes of the
lines, in their order, and so do its counts.
-/

namespace BlockScribe

namespace Outcome

def isConverted : Outcome → Bool
  | .converted .. => true
  | _ => false

def isEmpty : Outcome → Bool
  | .empty _ => true
  | _ => false

def isFailed : Outcome → Bool
  | .failed .. => true
  | _ => false

theorem countP_kinds (outcomes : List Outcome) :
    outcomes.countP isConverted + outcomes.countP isEmpty + outcomes.countP isFailed =
      outcomes.length := by
  induction outcomes with
  | nil => rfl
  | cons outcome outcomes ih =>
      cases outcome <;> simp [isConverted, isEmpty, isFailed, List.countP_cons] <;> omega

end Outcome

namespace Settings

def outcomes (settings : Settings) (lines : List String) : List Outcome :=
  lines.filterMap settings.process

def blanks (settings : Settings) (lines : List String) : Nat :=
  lines.countP fun line => (settings.process line).isNone

theorem length_outcomes_add_blanks (settings : Settings) (lines : List String) :
    (settings.outcomes lines).length + settings.blanks lines = lines.length := by
  induction lines with
  | nil => rfl
  | cons line lines ih =>
      rw [outcomes, blanks] at *
      cases processed : settings.process line with
      | none => simp [processed]; omega
      | some outcome => simp [processed]; omega

end Settings

namespace Run

variable (settings : Settings)

/-- What is left behind by a run that went through lines, starting from the given counts. -/
def after (written : Nat) (summary : Summary) (lines : List String) : Transcript :=
  let outcomes := settings.outcomes lines
  { output := outcomes.map (·.outputLine)
    diagnostics := outcomes.filterMap (·.diagnostic?)
    flushes := List.range' (written + 1) outcomes.length
    result := .ok {
      converted := summary.converted + outcomes.countP (·.isConverted)
      empty := summary.empty + outcomes.countP (·.isEmpty)
      failed := summary.failed + outcomes.countP (·.isFailed)
      skipped := summary.skipped + settings.blanks lines } }

/-! ## One line -/

theorem overLines_blank {written : Nat} {summary : Summary} {piece : List UInt8}
    (pieces : List (List UInt8)) (blank : settings.process (lineText piece) = none) :
    overLines settings .none written summary (piece :: pieces) =
      overLines settings .none written summary.skip pieces := by
  rw [overLines, blank]

theorem overLines_outcome {written : Nat} {summary : Summary} {piece : List UInt8}
    {outcome : Outcome} (pieces : List (List UInt8))
    (processed : settings.process (lineText piece) = some outcome) :
    let rest := overLines settings .none (written + 1) (summary.count outcome) pieces
    overLines settings .none written summary (piece :: pieces) =
      ⟨outcome.outputLine :: rest.output, outcome.diagnostic?.toList ++ rest.diagnostics,
        (written + 1) :: rest.flushes, rest.result⟩ := by
  rw [overLines, processed]
  simp [Faults.none]

/-! ## Many lines -/

theorem overLines_eq_after (written : Nat) (summary : Summary) (pieces : List (List UInt8)) :
    overLines settings .none written summary pieces =
      after settings written summary (pieces.map lineText) := by
  induction pieces generalizing written summary with
  | nil => simp [overLines, after, Settings.outcomes, Settings.blanks, Faults.none]
  | cons piece pieces ih =>
      cases processed : settings.process (lineText piece) with
      | none =>
          rw [overLines_blank settings pieces processed, ih]
          simp [after, Settings.outcomes, Settings.blanks, processed, Summary.skip]
          omega
      | some outcome =>
          rw [overLines_outcome settings pieces processed, ih]
          cases outcome <;>
            simp [after, Settings.outcomes, Settings.blanks, processed, Summary.count,
              Outcome.diagnostic?, Outcome.isConverted, Outcome.isEmpty, Outcome.isFailed,
              List.range'_succ] <;>
            omega

end Run

/-! ## Whole runs -/

theorem streamText_eq_join (messages : List String) :
    streamText messages = String.join (messages.map (· ++ "\n")) := by
  rw [← String.toList_inj]
  simp [streamText, String.toList_join, List.flatMap_map]

theorem Settings.run_none (settings : Settings) (input : List UInt8) :
    settings.run .none input =
      Run.after settings 0 .zero ((Run.lines .none input).map lineText) := by
  rw [run_eq_overLines, Run.overLines_eq_after]

theorem Settings.streamLines_outputText (settings : Settings) (input : List UInt8) :
    streamLines (settings.run .none input).outputText =
      (settings.outcomes ((Run.lines .none input).map lineText)).map (·.outputLine) := by
  rw [run_none]
  apply streamLines_streamText _
  intro message member
  obtain ⟨outcome, there, rfl⟩ := List.mem_map.mp member
  obtain ⟨line, -, processed⟩ := List.mem_filterMap.mp there
  exact Outcome.lineFeed_not_mem_outputLine (isSingleLine_of_process processed)

/--
A run without faults is one pass over the only lines that its input has.  All of
its output, diagnostics, flushes and counts come from the outcomes of the lines.
-/
theorem Settings.run_refines_process (settings : Settings) (input : List UInt8) :
    ∃ pieces, (∀ other, CutsInto input other ↔ other = pieces) ∧
      (∀ piece ∈ pieces, StripsTo (decodeLossy piece) (lineText piece).toList) ∧
      let outcomes := (pieces.map lineText).filterMap settings.process
      let transcript := settings.run .none input
      transcript.outputText = String.join (outcomes.map (·.outputLine ++ "\n")) ∧
      transcript.diagnosticText =
        String.join ((outcomes.filterMap (·.diagnostic?)).map (· ++ "\n")) ∧
      transcript.flushes = List.range' 1 outcomes.length ∧
      transcript.output.length = transcript.flushes.getLast?.getD 0 ∧
      ∃ summary, transcript.result = .ok summary ∧
        summary.converted = outcomes.countP (·.isConverted) ∧
        summary.empty = outcomes.countP (·.isEmpty) ∧
        summary.failed = outcomes.countP (·.isFailed) ∧
        summary.converted + summary.empty + summary.failed =
          (streamLines transcript.outputText).length ∧
        summary.converted + summary.empty + summary.failed = transcript.flushes.length ∧
        summary.converted + summary.empty + summary.failed + summary.skipped = pieces.length := by
  have cut (other : List (List UInt8)) :
      CutsInto input other ↔ other = Run.lines .none input := by
    constructor
    · exact CutsInto.eq_lines
    · rintro rfl
      exact cutsInto_lines input
  refine ⟨Run.lines .none input, cut, fun piece _ => stripsTo_lineText piece, ?_⟩
  have outputLines := settings.streamLines_outputText input
  have whole := settings.length_outcomes_add_blanks ((Run.lines .none input).map lineText)
  rw [List.length_map] at whole
  have total := Outcome.countP_kinds (settings.outcomes ((Run.lines .none input).map lineText))
  simp only [outputLines, List.length_map]
  rw [run_none]
  refine ⟨?_, ?_, rfl, ?_, _, rfl, ?_, ?_, ?_, ?_, ?_, ?_⟩
  · simp [Transcript.outputText, Run.after, outcomes, streamText_eq_join, Function.comp_def]
  · simp [Transcript.diagnosticText, Run.after, outcomes, streamText_eq_join]
  · simp only [Run.after, List.length_map, List.getLast?_range']
    by_cases none : (settings.outcomes ((Run.lines .none input).map lineText)).length = 0
    · simp [none]
    · simp [none]
  · simp [outcomes, Summary.zero]
  · simp [outcomes, Summary.zero]
  · simp [outcomes, Summary.zero]
  · simp [Summary.zero, total]
  · simp [Run.after, Summary.zero, total]
  · simp [Summary.zero, total, whole]

end BlockScribe
