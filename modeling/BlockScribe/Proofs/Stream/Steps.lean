import BlockScribe.Stream.Run

/-!
# Runs step by step

What each step of a run does to what has been written, and whether it is the
last.  From that, a run is a recursion on its lines which says what the rest of
them adds; the order of diagnostics, output and flushes can be read off it.
-/

namespace BlockScribe

namespace Run

variable (settings : Settings) (faults : Faults)

/-! ## Streams that keep what is written -/

theorem run_bind_ok {α β : Type} {program : Recorder α} {next : α → Recorder β} {value : α}
    {written written' : Written} (done : program.run.run written = (.ok value, written')) :
    (program >>= next).run.run written = (next value).run.run written' := by
  simp only [ExceptT.run_bind, StateT.run_bind, done]
  rfl

theorem run_bind_error {α β : Type} {program : Recorder α} {next : α → Recorder β}
    {error : StreamError} {written written' : Written}
    (failed : program.run.run written = (.error error, written')) :
    (program >>= next).run.run written = (.error error, written') := by
  simp only [ExceptT.run_bind, StateT.run_bind, failed]
  rfl

theorem run_write (message : String) (written : Written) :
    ((recorder faults).write message).run.run written =
      if faults.output then (.error .write, written)
      else (.ok (), { written with output := written.output ++ [message] }) := by
  cases refused : faults.output <;> simp [recorder, refused] <;> rfl

theorem run_flush (written : Written) :
    (recorder faults).flush.run.run written =
      if faults.flush = some written.flushes.length then (.error .flush, written)
      else (.ok (), { written with flushes := written.flushes ++ [written.output.length] }) := by
  have got : (get : Recorder Written).run.run written = (.ok written, written) := rfl
  simp only [recorder, run_bind_ok got]
  split <;> rfl

/-- That a diagnostic cannot be written is not to be seen in what comes after it. -/
theorem run_diagnose (message : String) (written : Written) :
    (tryCatch ((recorder faults).diagnose message) fun _ => pure ()).run.run written =
      (.ok (), { written with
        diagnostics := written.diagnostics ++ if faults.diagnostics then [] else [message] }) := by
  cases refused : faults.diagnostics <;> simp [recorder, refused] <;> rfl

/-- Nothing is flushed that could not be written. -/
theorem run_write_flush (message : String) (written : Written) :
    ((recorder faults).write message >>= fun _ => (recorder faults).flush).run.run written =
      let output := written.output ++ [message]
      if faults.output then (.error .write, written)
      else if faults.flush = some written.flushes.length then
        (.error .flush, { written with output })
      else (.ok (), { written with output, flushes := written.flushes ++ [output.length] }) := by
  have wrote := run_write faults message written
  cases refused : faults.output with
  | true =>
      rw [refused, if_pos rfl] at wrote
      rw [run_bind_error wrote, if_pos rfl]
  | false =>
      rw [refused, if_neg Bool.false_ne_true] at wrote
      rw [run_bind_ok wrote, run_flush, if_neg Bool.false_ne_true]

theorem run_answer (outcome : Outcome) (written : Written) :
    (answer (recorder faults) outcome).run.run written =
      let diagnostics :=
        written.diagnostics ++ if faults.diagnostics then [] else outcome.diagnostic?.toList
      let output := written.output ++ [outcome.outputLine]
      if faults.output then (.error .write, { written with diagnostics })
      else if faults.flush = some written.flushes.length then
        (.error .flush, { written with output, diagnostics })
      else (.ok (), ⟨output, diagnostics, written.flushes ++ [output.length]⟩) := by
  rw [answer]
  cases outcome.diagnostic? with
  | none => simp only [run_write_flush, Option.toList_none, ite_self, List.append_nil]
  | some diagnostic =>
      simp only [run_bind_ok (run_diagnose faults diagnostic written), run_write_flush,
        Option.toList_some]

/-! ## A run as a recursion on its lines -/

/-- The run from a number of flushes and counts on, by what it adds to what is written. -/
def overLines (written : Nat) (summary : Summary) : List (List UInt8) → Transcript
  | [] => ⟨[], [], [], if faults.input then .error .read else .ok summary⟩
  | line :: lines =>
      match settings.process (lineText line) with
      | none => overLines written summary.skip lines
      | some outcome =>
          let diagnostics := if faults.diagnostics then [] else outcome.diagnostic?.toList
          if faults.output then ⟨[], diagnostics, [], .error .write⟩
          else if faults.flush = some written then
            ⟨[outcome.outputLine], diagnostics, [], .error .flush⟩
          else
            let rest := overLines (written + 1) (summary.count outcome) lines
            ⟨outcome.outputLine :: rest.output, diagnostics ++ rest.diagnostics,
              (written + 1) :: rest.flushes, rest.result⟩

theorem pass_cons (piece : List UInt8) (pieces : List (List UInt8)) (summary : Summary) :
    pass settings faults (piece :: pieces) summary =
      step settings (recorder faults) summary piece >>= pass settings faults pieces := by
  simp only [pass, List.foldlM_cons, bind_assoc]
  rfl

theorem pass_blank {piece : List UInt8} (pieces : List (List UInt8)) (summary : Summary)
    (blank : settings.process (lineText piece) = none) :
    pass settings faults (piece :: pieces) summary =
      pass settings faults pieces summary.skip := by
  simp only [pass_cons, step, blank, pure_bind]

theorem pass_outcome {piece : List UInt8} {outcome : Outcome} (pieces : List (List UInt8))
    (summary : Summary) (processed : settings.process (lineText piece) = some outcome) :
    pass settings faults (piece :: pieces) summary =
      answer (recorder faults) outcome >>= fun _ =>
        pass settings faults pieces (summary.count outcome) := by
  simp only [pass_cons, step, processed, bind_assoc, pure_bind]

/-- Between two lines there are as many flushes as there are lines of output. -/
theorem run_pass (pieces : List (List UInt8)) {summary : Summary} {written : Written}
    (level : written.output.length = written.flushes.length) :
    (pass settings faults pieces summary).run.run written =
      let rest := overLines settings faults written.flushes.length summary pieces
      (rest.result, ⟨written.output ++ rest.output, written.diagnostics ++ rest.diagnostics,
        written.flushes ++ rest.flushes⟩) := by
  induction pieces generalizing summary written with
  | nil => cases refused : faults.input <;> simp [pass, overLines, refused] <;> rfl
  | cons piece pieces ih =>
      cases processed : settings.process (lineText piece) with
      | none =>
          rw [pass_blank settings faults pieces summary processed, ih level, overLines, processed]
      | some outcome =>
          have answered := run_answer faults outcome written
          rw [pass_outcome settings faults pieces summary processed, overLines, processed]
          -- A refused line and a refused flush end the run; else the same number is added to both.
          by_cases refused : faults.output = true
          · simp only [refused, reduceIte] at answered
            rw [run_bind_error answered]
            simp [refused]
          · by_cases here : faults.flush = some written.flushes.length
            · simp only [refused, here, reduceIte, Bool.false_eq_true] at answered
              rw [run_bind_error answered]
              simp [refused, here]
            · simp only [refused, here, reduceIte, Bool.false_eq_true] at answered
              rw [run_bind_ok answered, ih (by simp [level])]
              simp [refused, here, level]

end Run

theorem Settings.run_eq_overLines (settings : Settings) (faults : Faults) (input : List UInt8) :
    settings.run faults input =
      Run.overLines settings faults 0 .zero (Run.lines faults input) := by
  rw [run, Run.run_pass settings faults _ rfl]
  simp [Run.Written.nothing]

end BlockScribe
