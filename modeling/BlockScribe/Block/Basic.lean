import BlockScribe.Block.Table

/-!
# Blocks

The blocks of a description as they are written, before any of them is checked
against the types of blocks.  What a block leaves out is left out here too,
except for the type: a block without one is a paragraph.
-/

namespace BlockScribe

inductive Content where
  | inline (content : Inline)
  | table (table : Table)
  /-- Neither of the two. -/
  | malformed (value : Json)

/-- The content that a value stands for; inline content comes before tables. -/
def Content.ofJson (value : Json) : Content :=
  match Inline.ofJson? value with
  | some content => .inline content
  | none =>
      match Table.ofJson? value with
      | some found => .table found
      | none => .malformed value.canonical

structure Block where
  id : Option String
  type : String
  props : SortedMap Json
  content : Option Content
  children : List Block

end BlockScribe
