import BlockScribe.Document.Operation
import BlockScribe.SortedMap
import Std.Data.TreeMap

/-!
# Replaying operations

The objects that a list of operations leaves behind.  This follows what the
library that keeps documents says of one that nobody else edits.  The root is a
map.  A key of a map holds what was put there last.  One more element of a list
or a text goes before any that is there or behind them all, and what stands
behind it moves on.  A mark covers the characters between the positions at which
it begins and ends.

An operation is refused if it addresses no object, one of another kind, or a
position that is not there.  A mark is taken in when it ends, which has to be
right behind its beginning, since the library takes both in one call.
-/

namespace BlockScribe

inductive Slot where
  | scalar (value : Scalar)
  | object (number : Nat)
  deriving DecidableEq, Repr

structure Mark where
  name : String
  value : Scalar
  start : Nat
  stop : Nat
  deriving DecidableEq, Repr

inductive Object where
  | map (entries : SortedMap Slot)
  | list (slots : Array Slot)
  /-- Characters, and marks over them in the order in which they were put there. -/
  | text (chars : Array Char) (marks : Array Mark)

def Object.empty : ObjectKind → Object
  | .map => .map .empty
  | .list => .list #[]
  | .text => .text #[] #[]

structure OpenMark where
  object : Nat
  start : Nat
  name : String
  value : Scalar

structure Heap where
  /-- How many operations have been replayed. -/
  count : Nat
  objects : Std.TreeMap Nat Object
  openMark : Option OpenMark

namespace Heap

def initial : Heap :=
  ⟨0, Std.TreeMap.empty.insert rootObject (.empty .map), none⟩

def object? (heap : Heap) (number : Nat) : Option Object :=
  heap.objects[number]?

def putSlot? (object : Object) (place : Place) (slot : Slot) : Option Object :=
  match object, place with
  | .map entries, .key name => some (.map (entries.insert name slot))
  | .list slots, .index index =>
      if h : index ≤ slots.size then some (.list (slots.insertIdx index slot h)) else none
  | _, _ => none

/-- A scalar put into any object; a text takes single characters. -/
def putScalar? (object : Object) (place : Place) (value : Scalar) : Option Object :=
  match object, place, value with
  | .text chars marks, .index index, .text single =>
      match single.toList with
      | [c] =>
          if h : index ≤ chars.size then some (.text (chars.insertIdx index c h) marks)
          else none
      | _ => none
  | object, place, value => putSlot? object place (.scalar value)

def update (heap : Heap) (number : Nat) (object : Object) : Heap :=
  { heap with count := heap.count + 1, objects := heap.objects.insert number object }

def step? (heap : Heap) : Operation → Option Heap
  | .make kind number place => do
      guard heap.openMark.isNone
      let made := heap.count + 1
      let object ← putSlot? (← heap.object? number) place (.object made)
      let heap := heap.update number object
      return { heap with objects := heap.objects.insert made (.empty kind) }
  | .set number place value => do
      guard heap.openMark.isNone
      let object ← putScalar? (← heap.object? number) place value
      return heap.update number object
  | .markBegin number start name value => do
      guard heap.openMark.isNone
      return { heap with
        count := heap.count + 1
        openMark := some ⟨number, start, name, value⟩ }
  | .markEnd number stop _ => do
      let begun ← heap.openMark
      guard (begun.object = number)
      match ← heap.object? number with
      | .text chars marks =>
          guard (begun.start < stop ∧ stop ≤ chars.size)
          let mark : Mark := ⟨begun.name, begun.value, begun.start, stop⟩
          let heap := heap.update number (.text chars (marks.push mark))
          return { heap with openMark := none }
      | _ => none

def replay? (operations : List Operation) : Option Heap :=
  operations.foldlM step? initial

end Heap

end BlockScribe
