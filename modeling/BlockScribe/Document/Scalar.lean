import BlockScribe.Json.Basic

/-!
# Scalars of a document

The values that props, marks and column widths have in a document.  Integers
are signed while they fit 63 bits and a sign, and unsigned beyond.
-/

namespace BlockScribe

inductive Scalar where
  | null
  | bool (value : Bool)
  | int (value : Int)
  | uint (value : Nat)
  | double (value : Double)
  | text (value : String)
  deriving DecidableEq, Repr

namespace Scalar

def ofNumber : Number → Scalar
  | .integer value _ _ => if value < 0x8000000000000000 then .int value else .uint value.toNat
  | .double value => .double value

def ofJson? : Json → Option Scalar
  | .null => some .null
  | .bool value => some (.bool value)
  | .number value => some (.ofNumber value)
  | .string value => some (.text value)
  | .array _ | .object _ => none

def ofWidth : Option Double → Scalar
  | none => .null
  | some width => .double width

theorem isSome_ofJson? (value : Json) : (ofJson? value).isSome = value.isScalar := by
  cases value <;> rfl

end Scalar

end BlockScribe
