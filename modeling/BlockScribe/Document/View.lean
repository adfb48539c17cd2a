import BlockScribe.Document.Heap

/-!
# Reading documents back

The blocks that are stored under a name.  What maps, lists and texts are read as
is up to the library that keeps documents, and follows its documentation here.
It counts positions in characters; of two marks of one name it lets the later
count where they overlap, and what touches with the same value is one mark.
-/

namespace BlockScribe

/-! ## Texts -/

structure TextView where
  text : String
  marks : List Mark
  deriving DecidableEq, Repr

namespace TextView

/-- The value that a mark gives to each character it covers, and `layer` to all others. -/
def paint (mark : Mark) (layer : List (Option Scalar)) : List (Option Scalar) :=
  layer.take mark.start ++ List.replicate (mark.stop - mark.start) (some mark.value) ++
    layer.drop mark.stop

def layer (length : Nat) (marks : List Mark) (name : String) : List (Option Scalar) :=
  (marks.filter (·.name = name)).foldl (fun layer mark => paint mark layer)
    (List.replicate length none)

/-- A mark for each longest stretch of one value; `start` is the index of the first character. -/
def stretches (name : String) : Nat → List (Option Scalar) → List Mark
  | _, [] => []
  | start, none :: rest => stretches name (start + 1) rest
  | start, some value :: rest =>
      match stretches name (start + 1) rest with
      | mark :: marks =>
          if mark.start = start + 1 ∧ mark.value = value then
            { mark with start := start } :: marks
          else ⟨name, value, start, start + 1⟩ :: mark :: marks
      | [] => [⟨name, value, start, start + 1⟩]

def names (marks : List Mark) : List String :=
  (SortedMap.ofList (marks.map fun mark => (mark.name, ()))).entries.map (·.1)

def ofChars (chars : List Char) (marks : List Mark) : TextView where
  text := String.ofList chars
  marks := (names marks).flatMap fun name => stretches name 0 (layer chars.length marks name)

end TextView

/-! ## Blocks -/

structure CellView where
  props : SortedMap Scalar
  content : TextView

structure BlockView where
  id : String
  type : String
  props : SortedMap Scalar
  content : Option TextView
  columnWidths : Option (List Scalar)
  rows : Option (List (List CellView))
  children : List BlockView

namespace Heap

def map? (heap : Heap) (number : Nat) : Option (SortedMap Slot) :=
  match heap.object? number with
  | some (.map entries) => some entries
  | _ => none

def list? (heap : Heap) (number : Nat) : Option (List Slot) :=
  match heap.object? number with
  | some (.list slots) => some slots.toList
  | _ => none

def text? (heap : Heap) (number : Nat) : Option TextView :=
  match heap.object? number with
  | some (.text chars marks) => some (.ofChars chars.toList marks.toList)
  | _ => none

def child? (entries : SortedMap Slot) (key : String) : Option (Option Nat) :=
  match entries.get? key with
  | none => some none
  | some (.object number) => some (some number)
  | some (.scalar _) => none

def textAt? (entries : SortedMap Slot) (key : String) : Option String :=
  match entries.get? key with
  | some (.scalar (.text value)) => some value
  | _ => none

def scalars? (slots : List Slot) : Option (List Scalar) :=
  slots.mapM fun slot =>
    match slot with
    | .scalar value => some value
    | .object _ => none

def objects? (slots : List Slot) : Option (List Nat) :=
  slots.mapM fun slot =>
    match slot with
    | .object number => some number
    | .scalar _ => none

theorem scalars?_map (values : List Scalar) : scalars? (values.map .scalar) = some values := by
  induction values with
  | nil => rfl
  | cons value values ih =>
      rw [scalars?] at ih ⊢
      rw [List.map_cons, List.mapM_cons, ih]
      rfl

theorem objects?_map (numbers : List Nat) : objects? (numbers.map .object) = some numbers := by
  induction numbers with
  | nil => rfl
  | cons number numbers ih =>
      rw [objects?] at ih ⊢
      rw [List.map_cons, List.mapM_cons, ih]
      rfl

def props? (heap : Heap) (entries : SortedMap Slot) : Option (SortedMap Scalar) := do
  let some number ← child? entries "props" | none
  let map ← heap.map? number
  let values ← scalars? (map.entries.map (·.2))
  return .ofList ((map.entries.map (·.1)).zip values)

def cellAt? (heap : Heap) (number : Nat) : Option CellView := do
  let entries ← heap.map? number
  let some content ← child? entries "content" | none
  return ⟨← heap.props? entries, ← heap.text? content⟩

def rowAt? (heap : Heap) (number : Nat) : Option (List CellView) := do
  (← objects? (← heap.list? number)).mapM heap.cellAt?

def widthsAt? (heap : Heap) (number : Nat) : Option (List Scalar) := do
  scalars? (← heap.list? number)

def rowsAt? (heap : Heap) (number : Nat) : Option (List (List CellView)) := do
  (← objects? (← heap.list? number)).mapM heap.rowAt?

def part? {α : Type} (entries : SortedMap Slot) (key : String) (read? : Nat → Option α) :
    Option (Option α) := do
  (← child? entries key).mapM read?

def blockAt? (heap : Heap) (blocks? : Nat → Option (List BlockView)) (number : Nat) :
    Option BlockView := do
  let entries ← heap.map? number
  let some children ← child? entries "children" | none
  return {
    id := ← textAt? entries "id"
    type := ← textAt? entries "type"
    props := ← heap.props? entries
    content := ← part? entries "content" heap.text?
    columnWidths := ← part? entries "columnWidths" heap.widthsAt?
    rows := ← part? entries "rows" heap.rowsAt?
    children := ← blocks? children }

/-- The blocks of a list that holds lists of blocks less than `depth` deep. -/
def blocksAt? (heap : Heap) : Nat → Nat → Option (List BlockView)
  | 0, _ => none
  | depth + 1, number => do
      (← objects? (← heap.list? number)).mapM (heap.blockAt? (heap.blocksAt? depth))

/-- The blocks that are stored under a name; there are not more levels than operations. -/
def blocks? (heap : Heap) (store : String) : Option (List BlockView) := do
  let root ← heap.map? rootObject
  let some list ← child? root store | none
  heap.blocksAt? heap.count list

end Heap

def readBlocks? (operations : List Operation) (store : String) : Option (List BlockView) := do
  (← Heap.replay? operations).blocks? store

end BlockScribe
