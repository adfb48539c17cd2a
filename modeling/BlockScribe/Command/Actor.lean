import BlockScribe.Document.Payload
import BlockScribe.Text.Hex
import BlockScribe.Text.Quoted
import BlockScribe.Text.Utf8

/-!
# Actors on the command line

An actor is given in hexadecimal digits, two for each byte, and has at least
one byte.  Lengths and positions count the bytes of the argument.
-/

namespace BlockScribe

inductive ActorError where
  | oddLength
  | notHex (byte : UInt8) (position : Nat)
  | empty
  deriving DecidableEq, Repr

namespace ActorError

def message : ActorError → String
  | .oddLength => "actor id must be hex: Odd number of digits"
  | .notHex byte position =>
      "actor id must be hex: Invalid character " ++ quotedChar (Char.ofNat byte.toNat) ++
        " at position " ++ toString position
  | .empty => "actor id must not be empty"

end ActorError

namespace Actor

def charOf (byte : UInt8) : Char :=
  Char.ofNat byte.toNat

def firstBad? : Nat → List UInt8 → Option (UInt8 × Nat)
  | _, [] => none
  | position, byte :: bytes =>
      if (Hex.digitValue? (charOf byte)).isSome then firstBad? (position + 1) bytes
      else some (byte, position)

def parse (text : String) : Except ActorError Actor :=
  let bytes := utf8 text
  if bytes.length % 2 ≠ 0 then .error .oddLength
  else
    match firstBad? 0 bytes, Hex.decode? (bytes.map charOf) with
    | some (byte, position), _ => .error (.notHex byte position)
    | none, some (byte :: rest) => .ok (byte :: rest)
    | none, _ => .error .empty

end Actor

end BlockScribe
