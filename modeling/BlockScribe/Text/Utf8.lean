/-!
# UTF-8

Text as bytes, and bytes as text.  Decoding never fails: each maximal piece
that begins no well-formed sequence becomes one replacement character.  The
decoder is a machine that reads one byte at a time, so what it makes of a
line feed, and of all that follows one, does not depend on what came before.
-/

namespace BlockScribe

def utf8 (text : String) : List UInt8 :=
  text.toList.flatMap String.utf8EncodeChar

namespace Utf8

def replacement : Char := '\ufffd'

/--
Where the decoder stands: between characters, or inside a sequence that still
lacks `missing` bytes, the next of which has to lie between `low` and `high`.
-/
inductive State where
  | between
  | inside (missing : Nat) (low high : UInt8) (code : Nat)
  deriving DecidableEq, Repr

def lead (byte : UInt8) : List Char × State :=
  let code := byte.toNat
  if code < 0x80 then ([Char.ofNat code], .between)
  else if code < 0xC2 then ([replacement], .between)
  else if code < 0xE0 then ([], .inside 1 0x80 0xBF (code - 0xC0))
  else if code = 0xE0 then ([], .inside 2 0xA0 0xBF 0)
  else if code = 0xED then ([], .inside 2 0x80 0x9F 0xD)
  else if code < 0xF0 then ([], .inside 2 0x80 0xBF (code - 0xE0))
  else if code = 0xF0 then ([], .inside 3 0x90 0xBF 0)
  else if code < 0xF4 then ([], .inside 3 0x80 0xBF (code - 0xF0))
  else if code = 0xF4 then ([], .inside 3 0x80 0x8F 4)
  else ([replacement], .between)

def step : State → UInt8 → List Char × State
  | .between, byte => lead byte
  | .inside missing low high code, byte =>
      if low ≤ byte ∧ byte ≤ high then
        let code := code * 64 + (byte.toNat - 0x80)
        if missing ≤ 1 then ([Char.ofNat code], .between)
        else ([], .inside (missing - 1) 0x80 0xBF code)
      else
        let (chars, state) := lead byte
        (replacement :: chars, state)

def decodeFrom : State → List UInt8 → List Char
  | .between, [] => []
  | .inside .., [] => [replacement]
  | state, byte :: bytes =>
      let (chars, state) := step state byte
      chars ++ decodeFrom state bytes

end Utf8

/-- The text that a stretch of bytes stands for, ill-formed pieces replaced. -/
def decodeLossy (bytes : List UInt8) : List Char :=
  Utf8.decodeFrom .between bytes

end BlockScribe
