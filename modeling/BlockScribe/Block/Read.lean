import BlockScribe.Block.Basic
import BlockScribe.Block.Type
import BlockScribe.Json.Read

/-!
# Reading block lists

Blocks are read from the tree of a text.  A block is an object with the fields
below or an array of the fields in their order.  Members with other names are
skipped; a field that is there twice is a fault.  Content is read as a value
first, so it is a fault of the text or none.
-/

namespace BlockScribe.Block

open Json (Node Key Fault Reading)

/-! ## Fields -/

structure Draft where
  id : Option (Option String)
  type : Option String
  props : Option (SortedMap Json)
  content : Option (Option Content)
  children : Option (List Block)

namespace Draft

def empty : Draft :=
  ⟨none, none, none, none, none⟩

def block (draft : Draft) : Block where
  id := draft.id.join
  type := draft.type.getD BlockType.paragraph.name
  props := draft.props.getD .empty
  content := draft.content.join
  children := draft.children.getD []

end Draft

def readString (node : Node) : Except Fault String :=
  match node with
  | .leaf _ _ (.sound (.string text)) => .ok text
  | node => .error (node.wrongShape .string)

def readId (node : Node) : Except Fault (Option String) :=
  match node with
  | .leaf _ _ (.sound .null) => .ok none
  | node => some <$> readString node

def readProps (depth : Nat) (node : Node) : Except Fault (SortedMap Json) :=
  match node with
  | .object .. => do
      match ← node.value depth with
      | .object members => return Json.memberMap members
      | _ => throw (node.wrongShape .map)
  | node => .error (node.wrongShape .map)

def readContent (depth : Nat) (node : Node) : Except Fault (Option Content) := do
  match ← node.value depth with
  | .null => return none
  | value => return some (.ofJson value)

def once {α : Type} (name : String) (key : Key) (field : Option α) : Except Fault Unit :=
  if field.isSome then .error ⟨.repeatedField name, key.follow⟩ else .ok ()

/-- One more member of a block; `readChildren` reads block lists at this depth. -/
def readMember (readChildren : Node → Except Fault (List Block)) (depth : Nat) (draft : Draft) :
    Key × Node → Except Fault Draft
  | (key, node) => do
      match ← key.name.value with
      | "id" =>
          once "id" key draft.id
          return { draft with id := some (← readId node) }
      | "type" =>
          once "type" key draft.type
          return { draft with type := some (← readString node) }
      | "props" =>
          once "props" key draft.props
          return { draft with props := some (← readProps depth node) }
      | "content" =>
          once "content" key draft.content
          return { draft with content := some (← readContent depth node) }
      | "children" =>
          once "children" key draft.children
          return { draft with children := some (← readChildren node) }
      | _ =>
          node.skip
          return draft

def surplus : Node → Fault
  | .leaf start _ (.broken place) =>
      match place.fault.cause with
      | .trailingComma | .endInArray => place.fault
      | _ => ⟨.trailingText, min place.fault.index (start + 1)⟩
  | node => .on .trailingText node.start

def readFields (readChildren : Node → Except Fault (List Block)) (depth : Nat)
    (items : List Node) : Except Fault Draft := do
  let id ← items[0]?.mapM readId
  let type ← items[1]?.mapM readString
  let props ← items[2]?.mapM (readProps depth)
  let content ← items[3]?.mapM (readContent depth)
  let children ← items[4]?.mapM readChildren
  match items[5]? with
  | none => return ⟨id, type, props, content, children⟩
  | some node => throw (surplus node)

/-! ## Blocks and block lists -/

mutual

def read : Nat → Node → Except Fault Block
  | _, .leaf start stop reading => .error ((Node.leaf start stop reading).wrongShape .block)
  | 0, .array start _ | 0, .object start _ => .error (Node.tooDeep start)
  | depth + 1, .array _ items => Draft.block <$> readFields (readList depth) depth items
  | depth + 1, .object _ members =>
      Draft.block <$> members.foldlM (readMember (readList depth) depth) .empty

def readList : Nat → Node → Except Fault (List Block)
  | 0, .array start _ => .error (Node.tooDeep start)
  | depth + 1, .array _ items => items.mapM (read depth)
  | _, node => .error (node.wrongShape .sequence)

end

/-- The block list of a text, with nothing but blanks behind it. -/
def readTree (tree : Json.Tree) : Except Fault (List Block) := do
  let blocks ← readList Json.maxDepth tree.root
  tree.ending
  return blocks

def parseList (text : String) : Except Json.ReadError (List Block) :=
  (readTree (.ofText text)).mapError (Fault.locate text)

end BlockScribe.Block
