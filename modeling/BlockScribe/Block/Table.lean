import BlockScribe.Block.Inline

/-!
# Tables

Rows of cells below column widths that may be left open.  A cell is inline
content on its own, or a record with props of its own.
-/

namespace BlockScribe

inductive Cell where
  | bare (content : Inline)
  | full (props : SortedMap Json) (content : Inline)

structure Table where
  columnWidths : List (Option Double)
  rows : List (List Cell)

namespace Cell

def content : Cell → Inline
  | .bare content | .full _ content => content

def props : Cell → SortedMap Json
  | .bare _ => .empty
  | .full props _ => props

def defaultProps : List (String × Json) :=
  [("backgroundColor", .string "default"), ("textColor", .string "default"),
    ("textAlignment", .string "left"), ("colspan", .ofUInt32 1), ("rowspan", .ofUInt32 1)]

/-! ## Reading -/

def propsOfJson? : Option Json → Option (SortedMap Json)
  | none => some .empty
  | some (.object members) => some (Json.memberMap members)
  | some _ => none

def fullOfJson? (value : Json) : Option Cell := do
  match ← value.fields? ["props", "content"] with
  | [props, content] =>
      let props ← propsOfJson? props
      let content ← match content with
        | none => some .empty
        | some content => Inline.ofJson? content
      return .full props content
  | _ => none

def ofJson? (value : Json) : Option Cell :=
  match Inline.ofJson? value with
  | some content => some (.bare content)
  | none => fullOfJson? value

end Cell

namespace Table

def widthOfJson? : Json → Option (Option Double)
  | .null => some none
  | .number value => some (some value.toDouble)
  | _ => none

def rowOfJson? (value : Json) : Option (List Cell) := do
  match ← value.fields? ["cells"] with
  | [none] => some []
  | [some cells] => (← cells.array?).mapM Cell.ofJson?
  | _ => none

def ofJson? (value : Json) : Option Table := do
  match ← value.fields? ["columnWidths", "rows"] with
  | [widths, some rows] =>
      let columnWidths ← match widths with
        | none => some []
        | some widths => (← widths.array?).mapM widthOfJson?
      let rows ← (← rows.array?).mapM rowOfJson?
      return ⟨columnWidths, rows⟩
  | _ => none

end Table

end BlockScribe
