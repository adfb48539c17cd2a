import BlockScribe.Record.Outcome
import BlockScribe.Stream.Lines

/-!
# Runs

A run takes the lines of its input one after the other.  For each that is not
blank it writes the diagnostic, if there is one, then the line of output, and
flushes the output before the next line is read.  It ends when the input does,
or at the first failure to read, write or flush; a failure to write a
diagnostic does not matter.

What is done with one line is told for streams of any kind.  The program takes
the standard ones; here they keep what is written, up to a fault that strikes.
-/

namespace BlockScribe

structure Summary where
  converted : Nat
  empty : Nat
  failed : Nat
  skipped : Nat
  deriving DecidableEq, Repr

namespace Summary

def zero : Summary := ⟨0, 0, 0, 0⟩

def count (summary : Summary) : Outcome → Summary
  | .converted .. => { summary with converted := summary.converted + 1 }
  | .empty _ => { summary with empty := summary.empty + 1 }
  | .failed .. => { summary with failed := summary.failed + 1 }

def skip (summary : Summary) : Summary :=
  { summary with skipped := summary.skipped + 1 }

end Summary

structure Faults where
  /-- Reading fails behind the last byte. -/
  input : Bool
  /-- Nothing can be written to the output. -/
  output : Bool
  /-- Nothing can be written to the diagnostics. -/
  diagnostics : Bool
  /-- The flush behind so many good ones fails. -/
  flush : Option Nat
  deriving DecidableEq, Repr

def Faults.none : Faults := ⟨false, false, false, .none⟩

/-- What could not be done.  Why it could not is up to what the streams are connected to. -/
inductive StreamError where
  | read
  | write
  | flush
  deriving DecidableEq, Repr

/-- Everything that a run leaves behind: what was written, message by message,
and for each flush the number of lines of output before it. -/
structure Transcript where
  output : List String
  diagnostics : List String
  flushes : List Nat
  result : Except StreamError Summary

namespace Transcript

def outputText (transcript : Transcript) : String :=
  streamText transcript.output

def diagnosticText (transcript : Transcript) : String :=
  streamText transcript.diagnostics

end Transcript

namespace Run

/-! ## One line -/

/-- The streams that a run writes to. -/
structure Streams (m : Type → Type) where
  write : String → m Unit
  flush : m Unit
  diagnose : String → m Unit

section

variable {ε : Type} {m : Type → Type} [Monad m] [MonadExcept ε m]

def answer (streams : Streams m) (outcome : Outcome) : m Unit := do
  if let some diagnostic := outcome.diagnostic? then
    tryCatch (streams.diagnose diagnostic) fun _ => pure ()
  streams.write outcome.outputLine
  streams.flush

/-- What is done with a line, and the counts behind it. -/
def step (settings : Settings) (streams : Streams m) (summary : Summary) (line : List UInt8) :
    m Summary := do
  match settings.process (lineText line) with
  | none => return summary.skip
  | some outcome =>
      answer streams outcome
      return summary.count outcome

end

/-! ## Streams that keep what is written -/

/-- What a run has left behind so far. -/
structure Written where
  output : List String
  diagnostics : List String
  flushes : List Nat

def Written.nothing : Written := ⟨[], [], []⟩

abbrev Recorder := ExceptT StreamError (StateM Written)

def recorder (faults : Faults) : Streams Recorder where
  write message :=
    if faults.output then throw .write
    else modify fun written => { written with output := written.output ++ [message] }
  flush := do
    let written ← get
    if faults.flush = some written.flushes.length then throw .flush
    else set { written with flushes := written.flushes ++ [written.output.length] }
  diagnose message :=
    if faults.diagnostics then throw .write
    else modify fun written => { written with diagnostics := written.diagnostics ++ [message] }

/-! ## Many lines -/

/-- The lines that a run gets to see; one that reading breaks off is none. -/
def lines (faults : Faults) (input : List UInt8) : List (List UInt8) :=
  let (whole, last) := cutLines input
  if faults.input || last.isEmpty then whole else whole ++ [last]

/-- One pass over the lines, and the end that follows them. -/
def pass (settings : Settings) (faults : Faults) (lines : List (List UInt8))
    (summary : Summary) : Recorder Summary := do
  let summary ← lines.foldlM (step settings (recorder faults)) summary
  if faults.input then throw .read
  return summary

end Run

def Settings.run (settings : Settings) (faults : Faults) (input : List UInt8) : Transcript :=
  let (result, written) :=
    (Run.pass settings faults (Run.lines faults input) .zero).run.run .nothing
  ⟨written.output, written.diagnostics, written.flushes, result⟩

end BlockScribe
