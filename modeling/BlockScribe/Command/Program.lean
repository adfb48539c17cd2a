import BlockScribe.Command.Options
import BlockScribe.Stream.Run

/-!
# The program

What the program does with its arguments and its input.  Arguments that make no
sense end it before anything is read.  A stream that fails ends it as well, and
is complained of, unless the failure tells no more than that nobody takes the
output any longer: that is a reason to stop, and no error.
-/

namespace BlockScribe

/-- What a program complains of when it ends. -/
inductive Complaint (ε : Type) where
  | usage (error : UsageError)
  | stream (error : ε)
  deriving DecidableEq, Repr

/--
What a program leaves behind.  The diagnostics are those of the lines.  What it
complains of is told behind them, and the words for that are left open here.
-/
structure Exit where
  code : Nat
  output : String
  diagnostics : String
  complaint : Option (Complaint StreamError)
  deriving DecidableEq, Repr

inductive Connection where
  | sound
  /-- The standard input cannot be read. -/
  | unreadable
  /-- Nobody reads the standard output. -/
  | unread
  /-- The standard output is refused for another reason, such as a full disk. -/
  | refused
  deriving DecidableEq, Repr

namespace Connection

/-- Whether writing or flushing is what fails cannot be seen from outside. -/
def faults : Connection → Faults
  | .sound => .none
  | .unreadable => { Faults.none with input := true }
  | .unread | .refused => { Faults.none with output := true }

/-- Whether a failure tells no more than that nobody takes the output any longer. -/
def gone : Connection → StreamError → Bool
  | .unread, .write | .unread, .flush => true
  | _, _ => false

/-- What there is to read. -/
def received : Connection → List UInt8 → List UInt8
  | .unreadable, _ => []
  | _, input => input

end Connection

namespace Program

variable {ε : Type}

def complaint? (gone : ε → Bool) : Except ε Summary → Option (Complaint ε)
  | .ok _ => none
  | .error error => if gone error then none else some (.stream error)

def codeOf : Option (Complaint ε) → Nat
  | none => 0
  | some (.stream _) => 1
  | some (.usage _) => 2

def runWith (settings : Settings) (connection : Connection) (input : List UInt8) : Exit :=
  let transcript := settings.run connection.faults (connection.received input)
  let complaint := complaint? connection.gone transcript.result
  { code := codeOf complaint
    output := transcript.outputText
    diagnostics := transcript.diagnosticText
    complaint }

def run (arguments : List String) (connection : Connection) (input : List UInt8)
    (format : Format := .payload) : Exit :=
  match Options.parse arguments with
  | .error error =>
      let complaint := some (.usage error)
      ⟨codeOf complaint, "", "", complaint⟩
  | .ok options => runWith (options.settings format) connection input

end Program

end BlockScribe
