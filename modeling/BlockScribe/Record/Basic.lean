import BlockScribe.Json.Read

/-!
# Records

A record is a JSON object with an id and, unless there is nothing to convert, a
description.  An id is any JSON value: a string stands for itself and every
other value for its compact text.  Ids end up on lines of their own, so those
with a line break are refused.
-/

namespace BlockScribe

structure RecordId where
  text : String
  deriving DecidableEq, Repr

namespace RecordId

def unknown : RecordId := ⟨"unknown"⟩

def ofJson : Json → RecordId
  | .string text => ⟨text⟩
  | value => ⟨value.canonical.compact⟩

def isSingleLine (id : RecordId) : Bool :=
  id.text.toList.all fun c => c ≠ '\n' && c ≠ '\r'

end RecordId

structure Record where
  id : RecordId
  description : Option String
  deriving DecidableEq, Repr

inductive RecordError where
  | invalidJson (error : Json.ReadError)
  | notAnObject (found : Json.Kind)
  | missingId
  | multilineId
  | descriptionNotString (found : Json.Kind)
  | invalidBlockList (error : Json.ReadError)
  deriving DecidableEq, Repr

def RecordError.message : RecordError → String
  | .invalidJson error => "invalid JSON: " ++ error.message
  | .notAnObject found => "expected a JSON object, found " ++ found.phrase
  | .missingId => "record has no id"
  | .multilineId => "id must not contain line breaks"
  | .descriptionNotString found => "description must be a string, found " ++ found.phrase
  | .invalidBlockList error => "description is not a valid block list: " ++ error.message

namespace Record

/-- Values of a description that say that there is none. -/
def isNothing : Json → Bool
  | .null => true
  | .bool value => !value
  | .number value => value.isZero
  | .string text => text.isEmpty
  | .array _ | .object _ => false

def ofMembers (members : SortedMap Json) : Except RecordError Record := do
  let some id := members.get? "id" | throw .missingId
  let id := RecordId.ofJson id
  if !id.isSingleLine then throw .multilineId
  match members.get? "description" with
  | none => return ⟨id, none⟩
  | some (.string text) => return ⟨id, if text.isEmpty then none else some text⟩
  | some value =>
      if isNothing value then return ⟨id, none⟩ else throw (.descriptionNotString value.kind)

def parse (line : String) : Except RecordError Record :=
  match Json.parse line with
  | .error error => .error (.invalidJson error)
  | .ok (.object members) => ofMembers (Json.memberMap members)
  | .ok value => .error (.notAnObject value.kind)

end Record

/-- The id of a line that is no record: its `id` member, if it has one that fits a line. -/
def recoverId (line : String) : RecordId :=
  match Json.parse line with
  | .ok (.object members) =>
      match (Json.memberMap members).get? "id" with
      | some value =>
          let id := RecordId.ofJson value
          if id.isSingleLine then id else .unknown
      | none => .unknown
  | _ => .unknown

end BlockScribe
