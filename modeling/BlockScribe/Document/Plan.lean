import BlockScribe.Block.Basic
import BlockScribe.Block.Schema
import BlockScribe.Document.FlatText
import BlockScribe.Document.Identifier

/-!
# Plans

A plan is a block with everything decided that its document will show: its id,
its type, all of its props as scalars, and its content laid flat.  Making the
plans of a block list is where the schema is enforced; blocks are looked at in
the order of the text, each before its children, and the first that breaks the
schema is the one reported.
-/

namespace BlockScribe

structure CellPlan where
  props : SortedMap Scalar
  content : FlatText

inductive Body where
  | inline (content : FlatText)
  | table (columnWidths : List Scalar) (rows : List (List CellPlan))
  | none

structure Plan where
  id : String
  type : BlockType
  props : SortedMap Scalar
  body : Body
  children : List Plan

def PropOwner.planProps (owner : PropOwner) (given : SortedMap Json) :
    Except SchemaError (SortedMap Scalar) := do
  owner.checkProps given
  return (owner.allProps given).filterMapValues Scalar.ofJson?

def Cell.plan (cell : Cell) : Except SchemaError CellPlan := do
  let props ← PropOwner.cell.planProps cell.props
  return ⟨props, .ofInline cell.content⟩

namespace Body

def ofTable (table : Table) : Except SchemaError Body := do
  let rows ← table.rows.mapM fun row => row.mapM Cell.plan
  return .table (table.columnWidths.map Scalar.ofWidth) rows

def ofContent (type : BlockType) (content : Option Content) : Except SchemaError Body :=
  match type.contentKind, content with
  | .inline, Option.none => .ok (.inline (.ofInline .empty))
  | .inline, some (.inline content) => .ok (.inline (.ofInline content))
  | .table, Option.none => .ok (.table [] [])
  | .table, some (.table content) => ofTable content
  | .none, Option.none => .ok .none
  | _, some (.malformed _) => .error (.malformedContent type)
  | _, some (.inline _) => .error (.unexpectedInline type)
  | _, some (.table _) => .error (.unexpectedTable type)

end Body

namespace Plan

mutual

/-- The plan of the block that stands at `path`. -/
def ofBlock (store : String) (path : List Nat) : Block → Except SchemaError Plan
  | ⟨id, typeName, given, content, blocks⟩ => do
      let some type := BlockType.ofName? typeName | throw (.unknownType typeName)
      let props ← (PropOwner.block type).planProps given
      let body ← Body.ofContent type content
      let children ← ofBlocks store path 0 blocks
      return ⟨id.getD (Identifier.derive store path), type, props, body, children⟩

/-- The plans of blocks below `path`, the first of them at `index`. -/
def ofBlocks (store : String) (path : List Nat) (index : Nat) :
    List Block → Except SchemaError (List Plan)
  | [] => .ok []
  | block :: blocks => do
      let plan ← ofBlock store (path ++ [index]) block
      let plans ← ofBlocks store path (index + 1) blocks
      return plan :: plans

end

def ofList (store : String) (blocks : List Block) : Except SchemaError (List Plan) :=
  ofBlocks store [] 0 blocks

end Plan

end BlockScribe
