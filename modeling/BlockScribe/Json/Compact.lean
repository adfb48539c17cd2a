import BlockScribe.Json.Basic
import BlockScribe.Text.Hex

/-!
# Compact JSON text

The one written form of a value: no blanks, members in the order of the value,
strings escaped only where the grammar asks for it.  Integers are written in
full, doubles with their shortest digits, positional while the exponent lies
between -5 and 15 and always with a point there, otherwise as a power of ten
with a signed exponent.
-/

namespace BlockScribe.Json

/-! ## Strings -/

def escape (c : Char) : List Char :=
  match c with
  | '"' => ['\\', '"']
  | '\\' => ['\\', '\\']
  | '\x08' => ['\\', 'b']
  | '\x0c' => ['\\', 'f']
  | '\n' => ['\\', 'n']
  | '\r' => ['\\', 'r']
  | '\t' => ['\\', 't']
  | c =>
      if c.toNat < 0x20 then
        ['\\', 'u', '0', '0', Hex.digit (c.toNat / 16), Hex.digit (c.toNat % 16)]
      else [c]

def compactString (text : String) : List Char :=
  '"' :: text.toList.flatMap escape ++ ['"']

/-! ## Numbers -/

def compactNat (value : Nat) : List Char :=
  Nat.toDigits 10 value

def compactInt (value : Int) : List Char :=
  if value < 0 then '-' :: compactNat value.natAbs else compactNat value.natAbs

def digitChars (digits : List Nat) : List Char :=
  digits.map Nat.digitChar

/-- Positional notation, with a point and at least one digit on either side of it. -/
def positional (digits : List Nat) (exponent : Int) : List Char :=
  if exponent < 0 then
    ['0', '.'] ++ List.replicate ((-exponent).toNat - 1) '0' ++ digitChars digits
  else
    let whole := exponent.toNat + 1
    let fraction := digits.drop whole
    digitChars (digits.take whole) ++ List.replicate (whole - digits.length) '0' ++ ['.'] ++
      (if fraction.isEmpty then ['0'] else digitChars fraction)

def scientific (digits : List Nat) (exponent : Int) : List Char :=
  let fraction := digits.drop 1
  digitChars (digits.take 1) ++
    (if fraction.isEmpty then [] else '.' :: digitChars fraction) ++
    ['e', if exponent < 0 then '-' else '+'] ++ compactNat exponent.natAbs

def compactDouble (x : Double) : List Char :=
  let magnitude :=
    if x.isZero then ['0', '.', '0']
    else
      let ⟨digits, exponent⟩ := x.shortestDigits
      if -5 ≤ exponent ∧ exponent < 16 then positional digits exponent
      else scientific digits exponent
  if x.isNegative then '-' :: magnitude else magnitude

def compactNumber : Number → List Char
  | .integer value _ _ => compactInt value
  | .double value => compactDouble value

/-! ## Values -/

mutual

def compactChars : Json → List Char
  | .null => ['n', 'u', 'l', 'l']
  | .bool true => ['t', 'r', 'u', 'e']
  | .bool false => ['f', 'a', 'l', 's', 'e']
  | .number value => compactNumber value
  | .string value => compactString value
  | .array items => '[' :: compactItems items ++ [']']
  | .object members => '\x7b' :: compactMembers members ++ ['\x7d']

def compactItems : List Json → List Char
  | [] => []
  | [item] => compactChars item
  | item :: items => compactChars item ++ ',' :: compactItems items

def compactMembers : List (String × Json) → List Char
  | [] => []
  | [(name, value)] => compactString name ++ ':' :: compactChars value
  | (name, value) :: members =>
      compactString name ++ ':' :: compactChars value ++ ',' :: compactMembers members

end

def compact (value : Json) : String :=
  String.ofList value.compactChars

end BlockScribe.Json
