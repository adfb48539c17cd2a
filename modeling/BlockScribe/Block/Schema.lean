import BlockScribe.Block.Table
import BlockScribe.Block.Type

/-!
# The schema of props

Props are scalars, and a few of them are bound to more than that on the blocks
they matter to.  Any other prop is taken as it is.
-/

namespace BlockScribe

inductive PropOwner where
  | block (type : BlockType)
  | cell
  deriving DecidableEq, Repr

inductive PropRule where
  | scalar
  | headingLevel
  | boolean
  | number
  | positive
  deriving DecidableEq, Repr

inductive SchemaError where
  | unknownType (name : String)
  | malformedContent (type : BlockType)
  | unexpectedInline (type : BlockType)
  | unexpectedTable (type : BlockType)
  | invalidProp (owner : PropOwner) (prop : String) (rule : PropRule)
  deriving DecidableEq, Repr

def maxHeadingLevel : Int := 6

namespace PropRule

def reason : PropRule → String
  | .scalar => "props must be scalar values"
  | .headingLevel => "expected an integer between 1 and 6"
  | .boolean => "expected a boolean"
  | .number => "expected a number"
  | .positive => "expected a positive integer"

def holds (rule : PropRule) (value : Json) : Bool :=
  match rule, value with
  | .scalar, value => value.isScalar
  | .headingLevel, .number (.integer level _ _) => 1 ≤ level && level ≤ maxHeadingLevel
  | .boolean, .bool _ => true
  | .number, .number _ => true
  | .positive, .number (.integer count _ _) => 1 ≤ count
  | _, _ => false

end PropRule

namespace PropOwner

def name : PropOwner → String
  | .block type => type.name
  | .cell => "tableCell"

def defaultProps : PropOwner → List (String × Json)
  | .block type => type.defaultProps
  | .cell => Cell.defaultProps

/-- The rule of a prop beyond being a scalar. -/
def rule? (owner : PropOwner) (prop : String) : Option PropRule :=
  match owner with
  | .block .heading => if prop = "level" then some .headingLevel else none
  | .block .checkListItem => if prop = "checked" then some .boolean else none
  | .block .image | .block .video =>
      if prop = "previewWidth" then some .number
      else if prop = "showPreview" then some .boolean
      else none
  | .block .audio => if prop = "showPreview" then some .boolean else none
  | .cell => if prop = "colspan" ∨ prop = "rowspan" then some .positive else none
  | _ => none

/-- The rules of a prop in the order in which they are looked at. -/
def rules (owner : PropOwner) (prop : String) : List PropRule :=
  .scalar :: (owner.rule? prop).toList

def checkProp (owner : PropOwner) (prop : String) (value : Json) : Except SchemaError Unit :=
  match (owner.rules prop).find? fun rule => !rule.holds value with
  | none => .ok ()
  | some rule => .error (.invalidProp owner prop rule)

/-- The first prop that breaks a rule, in the order of names, is the one reported. -/
def checkProps (owner : PropOwner) (props : SortedMap Json) : Except SchemaError Unit :=
  props.entries.forM fun (prop, value) => owner.checkProp prop value

def allProps (owner : PropOwner) (given : SortedMap Json) : SortedMap Json :=
  (SortedMap.ofList owner.defaultProps).insertAll given.entries

theorem checkProps_defaultProps (owner : PropOwner) :
    owner.checkProps (.ofList owner.defaultProps) = .ok () := by
  cases owner with
  | block type => cases type <;> rfl
  | cell => rfl

end PropOwner

def SchemaError.message : SchemaError → String
  | .unknownType name => "unknown block type '" ++ name ++ "'"
  | .malformedContent type =>
      "content of '" ++ type.name ++ "' block is neither inline content nor a table"
  | .unexpectedInline type => "'" ++ type.name ++ "' blocks do not accept inline content"
  | .unexpectedTable type => "'" ++ type.name ++ "' blocks do not accept table content"
  | .invalidProp owner prop rule =>
      "invalid '" ++ prop ++ "' prop on '" ++ owner.name ++ "' block: " ++ rule.reason

end BlockScribe
