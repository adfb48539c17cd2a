import BlockScribe.Proofs.Stream.Run

/-!
# Reading the output of a run

The output has one line for each line of input that is not blank.  Reading them
gives the ids and what became of each, whatever the ids are made of, so that a
reader never loses count.
-/

namespace BlockScribe

def Settings.Tells (settings : Settings) (line : String) (read : OutputLine) : Prop :=
  ∃ outcome, settings.process line = some outcome ∧ outcome.ReadAs read ∧
    ∀ id payload, outcome = .converted id payload → settings.Encodes line id payload

theorem Settings.exists_tells {settings : Settings} {line : String} {outcome : Outcome}
    (processed : settings.process line = some outcome) :
    ∃ read, OutputLine.parse? outcome.outputLine = some read ∧ settings.Tells line read := by
  have encodes (id : RecordId) (payload : List UInt8) (same : outcome = .converted id payload) :
      settings.Encodes line id payload := by
    rw [same] at processed
    exact encodes_of_process processed
  have nonempty (id : RecordId) (payload : List UInt8) (same : outcome = .converted id payload) :
      payload ≠ [] := by
    obtain ⟨_, _, operations, _, _, _, rfl⟩ := encodes id payload same
    exact settings.format.save_ne_nil settings.actor operations
  obtain ⟨read, parsed, readAs⟩ := OutputLine.parse?_outputLine nonempty
  exact ⟨read, parsed, outcome, processed, readAs, encodes⟩

theorem Settings.reads_outcomes (settings : Settings) (lines : List String) :
    ∃ reads, ((settings.outcomes lines).map (·.outputLine)).map OutputLine.parse? =
        reads.map some ∧
      List.Forall₂ settings.Tells (lines.filter fun line => !isBlank line.toList) reads := by
  induction lines with
  | nil => exact ⟨[], rfl, .nil⟩
  | cons line lines ih =>
      obtain ⟨reads, parsed, tells⟩ := ih
      have visible : (settings.process line).isSome = !isBlank line.toList := process_isSome
      cases processed : settings.process line with
      | none =>
          simp only [processed, Option.isSome_none, Bool.false_eq] at visible
          refine ⟨reads, ?_, ?_⟩
          · simpa [outcomes, processed] using parsed
          · simpa [visible] using tells
      | some outcome =>
          simp only [processed, Option.isSome_some, Bool.true_eq] at visible
          obtain ⟨read, first, tellsFirst⟩ := exists_tells processed
          refine ⟨read :: reads, ?_, ?_⟩
          · simpa [outcomes, processed, first] using parsed
          · rw [List.filter_cons, if_pos visible]
            exact .cons tellsFirst tells

/--
Every line of the output is read, and the lines of input that are not blank are
told in their order: a mark for what was empty or failed, else the digits of the
document.
-/
theorem Settings.run_decodable (settings : Settings) (input : List UInt8) :
    ∃ pieces reads, CutsInto input pieces ∧
      (streamLines (settings.run .none input).outputText).map OutputLine.parse? =
        reads.map some ∧
      List.Forall₂ settings.Tells
        ((pieces.map lineText).filter fun line => !isBlank line.toList) reads := by
  obtain ⟨reads, parsed, tells⟩ :=
    settings.reads_outcomes ((Run.lines .none input).map lineText)
  refine ⟨Run.lines .none input, reads, cutsInto_lines input, ?_, tells⟩
  rw [streamLines_outputText, parsed]

end BlockScribe
