import BlockScribe.Json.Compact
import BlockScribe.Text.Quoted
import BlockScribe.Text.Utf8

/-!
# What can be wrong with a text

A fault is a cause and the number of bytes read when it shows.  A stretch of
text can be read for its value or be skipped, and skipping looks less closely:
a `Reading` says what either way comes to.
-/

namespace BlockScribe.Json

/-! ## Causes -/

inductive Found where
  | null
  | boolean (value : Bool)
  | number (value : Number)
  | string (value : String)
  | sequence
  | map
  deriving DecidableEq, Repr

inductive Expected where
  | string
  | sequence
  | map
  | block
  deriving DecidableEq, Repr

inductive Cause where
  | endInArray
  | endInObject
  | endInString
  | endInValue
  | colonExpected
  | commaOrBracketExpected
  | commaOrBraceExpected
  | wordExpected
  | valueExpected
  | invalidEscape
  | invalidNumber
  | numberOutOfRange
  | controlInString
  | keyNotString
  | loneSurrogate
  | surrogateNotContinued
  | trailingComma
  | trailingText
  | tooDeep
  | wrongShape (found : Found) (expected : Expected)
  | repeatedField (name : String)
  deriving DecidableEq, Repr

inductive Category where
  | ended
  | malformed
  | shape
  deriving DecidableEq, Repr

def Found.ofJson : Json → Found
  | .null => .null
  | .bool value => .boolean value
  | .number value => .number value
  | .string value => .string value
  | .array _ => .sequence
  | .object _ => .map

def Found.phrase : Found → String
  | .null => "null"
  | .boolean value => "boolean `" ++ (if value then "true" else "false") ++ "`"
  | .number (.integer value lower upper) =>
      "integer `" ++ (Json.number (.integer value lower upper)).compact ++ "`"
  | .number (.double value) =>
      "floating point `" ++ (Json.number (.double value)).compact ++ "`"
  | .string value => "string " ++ quotedText value
  | .sequence => "sequence"
  | .map => "map"

def Expected.phrase : Expected → String
  | .string => "a string"
  | .sequence => "a sequence"
  | .map => "a map"
  | .block => "struct Block"

namespace Cause

def category : Cause → Category
  | .endInArray | .endInObject | .endInString | .endInValue => .ended
  | .wrongShape .. | .repeatedField _ => .shape
  | _ => .malformed

def message : Cause → String
  | .endInArray => "EOF while parsing a list"
  | .endInObject => "EOF while parsing an object"
  | .endInString => "EOF while parsing a string"
  | .endInValue => "EOF while parsing a value"
  | .colonExpected => "expected `:`"
  | .commaOrBracketExpected => "expected `,` or `]`"
  | .commaOrBraceExpected => "expected `,` or `\x7d`"
  | .wordExpected => "expected ident"
  | .valueExpected => "expected value"
  | .invalidEscape => "invalid escape"
  | .invalidNumber => "invalid number"
  | .numberOutOfRange => "number out of range"
  | .controlInString =>
      "control character (\\u0000-\\u001F) found while parsing a string"
  | .keyNotString => "key must be a string"
  | .loneSurrogate => "lone leading surrogate in hex escape"
  | .surrogateNotContinued => "unexpected end of hex escape"
  | .trailingComma => "trailing comma"
  | .trailingText => "trailing characters"
  | .tooDeep => "recursion limit exceeded"
  | .wrongShape found expected =>
      "invalid type: " ++ found.phrase ++ ", expected " ++ expected.phrase
  | .repeatedField name => "duplicate field `" ++ name ++ "`"

end Cause

/-! ## Faults -/

structure Fault where
  cause : Cause
  /-- The number of bytes read. -/
  index : Nat
  deriving DecidableEq, Repr

namespace Fault

def on (cause : Cause) (index : Nat) : Fault :=
  ⟨cause, index + 1⟩

end Fault

/-! ## Readings -/

/-- Where nobody gets past: the fault for readers of the value, and for those who skip it. -/
structure Break where
  fault : Fault
  skipping : Fault
  deriving DecidableEq, Repr

def Break.both (fault : Fault) : Break :=
  ⟨fault, fault⟩

/--
What a stretch of text holds: a value, or a fault that only a reader of the
value sees, or one that stops those who skip it as well.
-/
inductive Reading (α : Type) where
  | sound (value : α)
  | skippable (fault : Fault)
  | broken (place : Break)
  deriving Repr

namespace Reading

variable {α β : Type}

def value : Reading α → Except Fault α
  | .sound value => .ok value
  | .skippable fault => .error fault
  | .broken place => .error place.fault

def skip : Reading α → Except Fault Unit
  | .sound _ | .skippable _ => .ok ()
  | .broken place => .error place.skipping

def map (f : α → β) : Reading α → Reading β
  | .sound value => .sound (f value)
  | .skippable fault => .skippable fault
  | .broken place => .broken place

def isBroken : Reading α → Bool
  | .broken .. => true
  | _ => false

theorem skip_of_value {reading : Reading α} {value : α} (h : reading.value = .ok value) :
    reading.skip = .ok () := by
  cases reading <;> simp_all [Reading.value, skip]

end Reading

/-! ## Places in a text -/

/-- Why a text could not be read, and where: lines count from one, columns in bytes. -/
structure ReadError where
  cause : Cause
  line : Nat
  column : Nat
  deriving DecidableEq, Repr

/-- The place that is reached after the first `index` bytes of a text. -/
def Fault.locate (text : String) (fault : Fault) : ReadError :=
  let before := (utf8 text).take fault.index
  let lineFeed : UInt8 := 0x0A
  { cause := fault.cause
    line := 1 + before.count lineFeed
    column := (before.reverse.takeWhile (· ≠ lineFeed)).length }

def ReadError.message (error : ReadError) : String :=
  error.cause.message ++ " at line " ++ toString error.line ++
    " column " ++ toString error.column

end BlockScribe.Json
