import BlockScribe.Document.Scalar

/-!
# Operations

A document is the list of operations that build it.  Operations are numbered
from one, and an object is known by the number of the operation that made it;
the root, which is a map, has number zero.
-/

namespace BlockScribe

inductive ObjectKind where
  | map
  | list
  | text
  deriving DecidableEq, Repr

inductive Place where
  | key (name : String)
  | index (index : Nat)
  deriving DecidableEq, Repr

inductive Operation where
  | make (kind : ObjectKind) (object : Nat) (place : Place)
  /-- In a text, the value is a text of one character. -/
  | set (object : Nat) (place : Place) (value : Scalar)
  | markBegin (object start : Nat) (name : String) (value : Scalar)
  /-- The end of the mark that has just begun; some marks grow with text put in there. -/
  | markEnd (object stop : Nat) (grows : Bool)
  deriving DecidableEq, Repr

def rootObject : Nat := 0

def firstNumber : Nat := 1

end BlockScribe
