import BlockScribe.Document.Operation
import BlockScribe.Document.Plan

/-!
# Scripts

The operations that write a plan into a document.  What they are called depends
on how many came before, so a script is a function of the number of its first
operation.  Scripts are put together end to end.
-/

namespace BlockScribe

/-- Operations, given the number of the first of them. -/
def Script := Nat → List Operation

namespace Script

def nothing : Script := fun _ => []

def single (operation : Operation) : Script := fun _ => [operation]

def append (a b : Script) : Script := fun first =>
  let operations := a first
  operations ++ b (first + operations.length)

instance : Append Script := ⟨append⟩

def concat (scripts : List Script) : Script :=
  scripts.foldr append nothing

def making (kind : ObjectKind) (object : Nat) (place : Place) (body : Nat → Script) : Script :=
  fun number => .make kind object place :: body number (number + 1)

theorem append_apply (a b : Script) (first : Nat) :
    (a ++ b) first = a first ++ b (first + (a first).length) := rfl

theorem append_assoc (a b c : Script) : a ++ b ++ c = a ++ (b ++ c) := by
  funext first
  simp [append_apply, List.append_assoc, Nat.add_assoc]

/-! ## Parts of a block -/

def setting (object : Nat) (place : Place) (value : Scalar) : Script :=
  single (.set object place value)

/-- Values at the end of a list, the first of them at `index`. -/
def values (list : Nat) : Nat → List Scalar → Script
  | _, [] => nothing
  | index, value :: rest => setting list (.index index) value ++ values list (index + 1) rest

def props (owner : Nat) (map : SortedMap Scalar) : Script :=
  making .map owner (.key "props") fun object =>
    concat (map.entries.map fun (name, value) => setting object (.key name) value)

/-- A mark over part of a text; links do not grow when text is put in at their end. -/
def mark (object : Nat) (span : Span) : Script :=
  single (.markBegin object span.start span.name span.value) ++
    single (.markEnd object span.stop (span.name ≠ linkMark))

def flatText (owner : Nat) (content : FlatText) : Script :=
  making .text owner (.key "content") fun object =>
    values object 0 (content.text.toList.map fun c => .text c.toString) ++
      concat (content.spans.map (mark object))

/-! ## Tables -/

def cell (row index : Nat) (plan : CellPlan) : Script :=
  making .map row (.index index) fun object =>
    props object plan.props ++ flatText object plan.content

def cells (row : Nat) : Nat → List CellPlan → Script
  | _, [] => nothing
  | index, plan :: plans => cell row index plan ++ cells row (index + 1) plans

def rows (list : Nat) : Nat → List (List CellPlan) → Script
  | _, [] => nothing
  | index, plans :: rest =>
      (making .list list (.index index) fun row => cells row 0 plans) ++
        rows list (index + 1) rest

def body (object : Nat) : Body → Script
  | .inline content => flatText object content
  | .table widths plans =>
      (making .list object (.key "columnWidths") fun list => values list 0 widths) ++
        making .list object (.key "rows") fun list => rows list 0 plans
  | .none => nothing

/-! ## Blocks -/

mutual

def block (list index : Nat) : Plan → Script
  | ⟨id, type, map, content, plans⟩ =>
      making .map list (.index index) fun object =>
        setting object (.key "id") (.text id) ++
          (setting object (.key "type") (.text type.name) ++
            (props object map ++
              (body object content ++
                making .list object (.key "children") fun children => blocks children 0 plans)))

def blocks (list index : Nat) : List Plan → Script
  | [] => nothing
  | plan :: plans => block list index plan ++ blocks list (index + 1) plans

end

def store (name : String) (plans : List Plan) : Script :=
  making .list rootObject (.key name) fun list => blocks list 0 plans

end Script

def construct (store : String) (blocks : List Block) : Except SchemaError (List Operation) := do
  let plans ← Plan.ofList store blocks
  return Script.store store plans firstNumber

end BlockScribe
