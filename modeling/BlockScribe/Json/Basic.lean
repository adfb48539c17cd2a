import BlockScribe.Double.Decimal
import BlockScribe.SortedMap

/-!
# JSON values

An object keeps its members as they were written, so a name may come twice.
The canonical form of a value sorts the members of every object by name and
keeps the last of several with one name; values that agree there are the same
value, however they were written.
-/

namespace BlockScribe

/-- Integers of 64 bits, signed or unsigned, and doubles for all other numbers. -/
inductive Number where
  | integer (value : Int) (lower : -0x8000000000000000 ≤ value)
      (upper : value < 0x10000000000000000)
  | double (value : Double)
  deriving DecidableEq, Repr

inductive Json where
  | null
  | bool (value : Bool)
  | number (value : Number)
  | string (value : String)
  | array (items : List Json)
  | object (members : List (String × Json))
  deriving Inhabited, Repr

namespace Number

def ofUInt32 (value : UInt32) : Number :=
  .integer value.toNat (by omega) (by have := value.toNat_lt; omega)

def toDouble : Number → Double
  | .integer value _ _ => .ofInt value
  | .double value => value

def isZero : Number → Bool
  | .integer value _ _ => value = 0
  | .double value => value.isZero

end Number

namespace Json

def ofUInt32 (value : UInt32) : Json :=
  .number (.ofUInt32 value)

/-! ## Kinds -/

inductive Kind where
  | null
  | boolean
  | number
  | string
  | array
  | object
  deriving DecidableEq, Repr

def kind : Json → Kind
  | .null => .null
  | .bool _ => .boolean
  | .number _ => .number
  | .string _ => .string
  | .array _ => .array
  | .object _ => .object

def Kind.phrase : Kind → String
  | .null => "null"
  | .boolean => "a boolean"
  | .number => "a number"
  | .string => "a string"
  | .array => "an array"
  | .object => "an object"

def isScalar : Json → Bool
  | .array _ | .object _ => false
  | _ => true

/-! ## Canonical form -/

mutual

def canonical : Json → Json
  | .array items => .array (canonicalItems items)
  | .object members => .object (SortedMap.ofList (canonicalMembers members)).entries
  | value => value

def canonicalItems : List Json → List Json
  | [] => []
  | item :: items => canonical item :: canonicalItems items

def canonicalMembers : List (String × Json) → List (String × Json)
  | [] => []
  | (name, value) :: members => (name, canonical value) :: canonicalMembers members

end

/-- The members of an object by name, each value in canonical form. -/
def memberMap (members : List (String × Json)) : SortedMap Json :=
  SortedMap.ofList (canonicalMembers members)

def ofMap (members : SortedMap Json) : Json :=
  .object members.entries

/-! ## Reading a value as a record

A record is an object that names its fields, or an array of the fields in their
order.  An object may hold unknown members, but no known field twice; an array
may break off early, but holds nothing after the last field.
-/

/-- The members of a name; `none` if there is more than one. -/
def soleMember (members : List (String × Json)) (name : String) : Option (Option Json) :=
  match members.filter (·.1 = name) with
  | [] => some none
  | [(_, value)] => some (some value)
  | _ => none

def fields? (names : List String) : Json → Option (List (Option Json))
  | .object members => names.mapM (soleMember members)
  | .array items =>
      if items.length ≤ names.length then
        some (items.map some ++ List.replicate (names.length - items.length) none)
      else none
  | _ => none

def string? : Json → Option String
  | .string value => some value
  | _ => none

def bool? : Json → Option Bool
  | .bool value => some value
  | _ => none

def array? : Json → Option (List Json)
  | .array items => some items
  | _ => none

end Json

end BlockScribe
