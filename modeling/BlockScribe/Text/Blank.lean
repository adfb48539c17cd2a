/-!
# Blank text

The characters with the Unicode property White_Space.  A line that holds
nothing else carries no record.
-/

namespace BlockScribe

def isBlankChar (c : Char) : Bool :=
  (0x09 ≤ c.toNat && c.toNat ≤ 0x0D) ||
    [0x20, 0x85, 0xA0, 0x1680, 0x2028, 0x2029, 0x202F, 0x205F, 0x3000].contains c.toNat ||
    (0x2000 ≤ c.toNat && c.toNat ≤ 0x200A)

def isBlank (text : List Char) : Bool :=
  text.all isBlankChar

end BlockScribe
