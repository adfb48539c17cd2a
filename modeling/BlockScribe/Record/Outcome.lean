import BlockScribe.Block.Read
import BlockScribe.Document.Format
import BlockScribe.Document.Script
import BlockScribe.Record.Basic
import BlockScribe.Text.Blank

/-!
# Outcomes

What becomes of a line: a document, nothing because there is none to make, or a
failure.  Each line is dealt with on its own, and a failed one still gets the
best id it shows.
-/

namespace BlockScribe

structure Settings where
  store : String
  actor : Actor
  format : Format := .payload

namespace Settings

def defaultStore : String := "document-store"

def defaultActor : Actor := [0x73, 0x74, 0x6F, 0x72, 0x79, 0x64, 0x6F, 0x63]

def standard : Settings where
  store := defaultStore
  actor := defaultActor

end Settings

inductive Failure where
  | record (error : RecordError)
  | schema (error : SchemaError)
  deriving DecidableEq, Repr

def Failure.message : Failure → String
  | .record error => error.message
  | .schema error => error.message

inductive Outcome where
  | converted (id : RecordId) (payload : List UInt8)
  | empty (id : RecordId)
  | failed (id : RecordId) (failure : Failure)
  deriving DecidableEq, Repr

namespace Outcome

def id : Outcome → RecordId
  | .converted id _ | .empty id | .failed id _ => id

def emptyMark : String := "EMPTY"

def errorMark : String := "ERROR"

def payloadText : Outcome → String
  | .converted _ payload => String.ofList (Hex.encode payload)
  | .empty _ => emptyMark
  | .failed .. => errorMark

def outputLine (outcome : Outcome) : String :=
  outcome.id.text ++ ":" ++ outcome.payloadText

def diagnostic? : Outcome → Option String
  | .failed id failure => some ("Error on story " ++ id.text ++ ": " ++ failure.message)
  | _ => none

end Outcome

namespace Settings

def encodeDescription (settings : Settings) (description : String) :
    Except Failure (List UInt8) := do
  let blocks ← (Block.parseList description).mapError (.record ∘ .invalidBlockList)
  let operations ← (construct settings.store blocks).mapError .schema
  return settings.format.save settings.actor operations

def convert (settings : Settings) (record : Record) : Outcome :=
  match record.description with
  | none => .empty record.id
  | some description =>
      match settings.encodeDescription description with
      | .ok payload => .converted record.id payload
      | .error failure => .failed record.id failure

/-- The outcome of a line; a blank line has none. -/
def process (settings : Settings) (line : String) : Option Outcome :=
  if isBlank line.toList then none
  else
    match Record.parse line with
    | .ok record => some (settings.convert record)
    | .error error => some (.failed (recoverId line) (.record error))

end Settings

end BlockScribe
