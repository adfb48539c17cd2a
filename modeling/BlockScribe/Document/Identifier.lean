import BlockScribe.Digest.Sha256
import BlockScribe.Text.Hex
import BlockScribe.Text.Utf8

/-!
# Derived ids

A block that comes without an id gets one from where it stands: the name of the
store and the block's index at every level, from the top list down.  The id is
the head of a digest of both, written in five groups of digits.
-/

namespace BlockScribe.Identifier

def indexBytes (index : Nat) : List UInt8 :=
  Sha256.bigEndian 8 index

def message (store : String) (path : List Nat) : List UInt8 :=
  utf8 store ++ path.flatMap indexBytes

def grouped (bytes : List UInt8) : String :=
  let group (start count : Nat) := Hex.encode ((bytes.drop start).take count)
  String.ofList ("-".toList.intercalate
    [group 0 4, group 4 2, group 6 2, group 8 2, group 10 6])

def derive (store : String) (path : List Nat) : String :=
  grouped (Sha256.hash (message store path))

end BlockScribe.Identifier
