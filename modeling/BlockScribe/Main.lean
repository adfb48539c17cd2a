import BlockScribe.Command.Program

/-!
# The program at work

Reads the standard input line by line and answers each line before the next
one is read.
-/

namespace BlockScribe.Program

def standardStreams : IO (Run.Streams IO) := do
  let output ← IO.getStdout
  return { write := output.putStrLn, flush := output.flush, diagnose := IO.eprintln }

partial def readLine (input : IO.FS.Stream) (line : Array UInt8) : IO (Array UInt8) := do
  match (← input.read 1).data[0]? with
  | none => return line
  | some byte =>
      let line := line.push byte
      if byte = lineFeed then return line else readLine input line

partial def answerAll (settings : Settings) (input : IO.FS.Stream) (streams : Run.Streams IO)
    (summary : Summary) : IO Summary := do
  let line ← readLine input #[]
  if line.isEmpty then return summary
  answerAll settings input streams (← Run.step settings streams summary line.toList)

def isGone : IO.Error → Bool
  | .resourceVanished .. => true
  | _ => false

def complaintText : Complaint IO.Error → String
  | .usage error => "error: " ++ error.message
  | .stream error => "unable to process stdin: " ++ toString error

def perform (arguments : List String) : IO (Option (Complaint IO.Error)) := do
  match Options.parse arguments with
  | .error error => return some (.usage error)
  | .ok options =>
      let settings := options.settings .payload
      let input ← IO.getStdin
      let streams ← standardStreams
      return complaint? isGone (← observing (answerAll settings input streams .zero))

end BlockScribe.Program

open BlockScribe Program

def main (arguments : List String) : IO UInt32 := do
  let complaint ← perform arguments
  if let some complaint := complaint then
    IO.eprintln (complaintText complaint)
  return .ofNat (codeOf complaint)
