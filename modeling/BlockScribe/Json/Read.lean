import BlockScribe.Json.Node

/-!
# Reading values

The value of a text is read from its tree.  Arrays and objects may be nested
up to a depth; skipped values may be nested without end.
-/

namespace BlockScribe.Json

def maxDepth : Nat := 127

namespace Node

def tooDeep (start : Nat) : Fault :=
  .on .tooDeep start

/-- The value of a tree that is nested at most `depth` deep. -/
def value : Nat → Node → Except Fault Json
  | _, .leaf _ _ reading => reading.value
  | 0, .array start _ | 0, .object start _ => .error (tooDeep start)
  | depth + 1, .array _ items => .array <$> items.mapM (value depth)
  | depth + 1, .object _ members =>
      .object <$> members.mapM fun (key, node) => do
        let name ← key.name.value
        let value ← value depth node
        return (name, value)

mutual

/-- What those come to who only look for the end of a value. -/
def skip : Node → Except Fault Unit
  | .leaf _ _ reading => reading.skip
  | .array _ items => skipItems items
  | .object _ members => skipMembers members

def skipItems : List Node → Except Fault Unit
  | [] => .ok ()
  | item :: items => do
      skip item
      skipItems items

def skipMembers : List (Key × Node) → Except Fault Unit
  | [] => .ok ()
  | (key, node) :: members => do
      key.name.skip
      skip node
      skipMembers members

end

/-- Something of another shape than expected; a leaf has been read by then. -/
def wrongShape (expected : Expected) : Node → Fault
  | .array start _ => ⟨.wrongShape .sequence expected, start⟩
  | .object start _ => ⟨.wrongShape .map expected, start⟩
  | .leaf _ stop reading =>
      match reading.value with
      | .ok value => ⟨.wrongShape (.ofJson value) expected, stop⟩
      | .error fault => fault

end Node

def Tree.value (tree : Tree) : Except Fault Json := do
  let value ← tree.root.value maxDepth
  tree.ending
  return value

def parse (text : String) : Except ReadError Json :=
  (Tree.ofText text).value.mapError (Fault.locate text)

end BlockScribe.Json
