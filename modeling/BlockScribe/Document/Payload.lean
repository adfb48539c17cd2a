import BlockScribe.Document.Operation

/-!
# Payloads

An actor and a list of operations as bytes, in a plain format of its own.  Every
part says where it ends: numbers are written in groups of seven bits, lists
behind their length, and everything with more than one form behind a tag.  So a
payload is never empty, and reading one undoes writing it.
-/

namespace BlockScribe

abbrev Actor := List UInt8

namespace Payload

/-! ## Numbers -/

def encodeNat (value : Nat) : List UInt8 :=
  if value < 128 then [UInt8.ofNat value]
  else UInt8.ofNat (128 + value % 128) :: encodeNat (value / 128)

def decodeNat? : List UInt8 → Option (Nat × List UInt8)
  | [] => none
  | byte :: bytes =>
      if byte.toNat < 128 then some (byte.toNat, bytes)
      else do
        let (value, rest) ← decodeNat? bytes
        return (128 * value + (byte.toNat - 128), rest)

@[simp] theorem decodeNat?_suffix (value : Nat) (rest : List UInt8) :
    decodeNat? (encodeNat value ++ rest) = some (value, rest) := by
  fun_induction encodeNat value with
  | case1 value small =>
      have : value % 256 = value := by omega
      simp [decodeNat?, this, small]
  | case2 value large ih =>
      have high : (128 + value % 128) % 256 = 128 + value % 128 := by omega
      have notLast : ¬128 + value % 128 < 128 := by omega
      have whole : 128 * (value / 128) + value % 128 = value := Nat.div_add_mod value 128
      simp [decodeNat?, high, notLast, ih, whole]

theorem encodeNat_ne_nil (value : Nat) : encodeNat value ≠ [] := by
  rw [encodeNat]; split <;> simp

/-! ## Lists and texts -/

def encodeList {α : Type} (encode : α → List UInt8) (values : List α) : List UInt8 :=
  encodeNat values.length ++ values.flatMap encode

def decodeTimes? {α : Type} (decode? : List UInt8 → Option (α × List UInt8)) :
    Nat → List UInt8 → Option (List α × List UInt8)
  | 0, bytes => some ([], bytes)
  | count + 1, bytes => do
      let (value, bytes) ← decode? bytes
      let (values, bytes) ← decodeTimes? decode? count bytes
      return (value :: values, bytes)

def decodeList? {α : Type} (decode? : List UInt8 → Option (α × List UInt8))
    (bytes : List UInt8) : Option (List α × List UInt8) := do
  let (count, bytes) ← decodeNat? bytes
  decodeTimes? decode? count bytes

theorem decodeTimes?_suffix {α : Type} {encode : α → List UInt8}
    {decode? : List UInt8 → Option (α × List UInt8)}
    (h : ∀ value rest, decode? (encode value ++ rest) = some (value, rest))
    (values : List α) (rest : List UInt8) :
    decodeTimes? decode? values.length (values.flatMap encode ++ rest) = some (values, rest) := by
  induction values with
  | nil => rfl
  | cons value values ih => simp [decodeTimes?, List.append_assoc, h, ih]

theorem decodeList?_suffix {α : Type} {encode : α → List UInt8}
    {decode? : List UInt8 → Option (α × List UInt8)}
    (h : ∀ value rest, decode? (encode value ++ rest) = some (value, rest))
    (values : List α) (rest : List UInt8) :
    decodeList? decode? (encodeList encode values ++ rest) = some (values, rest) := by
  simp [decodeList?, encodeList, List.append_assoc, decodeTimes?_suffix h]

def encodeChar (c : Char) : List UInt8 :=
  encodeNat c.toNat

def decodeChar? (bytes : List UInt8) : Option (Char × List UInt8) := do
  let (code, bytes) ← decodeNat? bytes
  return (Char.ofNat code, bytes)

@[simp] theorem decodeChar?_suffix (c : Char) (rest : List UInt8) :
    decodeChar? (encodeChar c ++ rest) = some (c, rest) := by
  simp [decodeChar?, encodeChar, Char.ofNat_toNat]

def encodeText (text : String) : List UInt8 :=
  encodeList encodeChar text.toList

def decodeText? (bytes : List UInt8) : Option (String × List UInt8) := do
  let (chars, bytes) ← decodeList? decodeChar? bytes
  return (String.ofList chars, bytes)

@[simp] theorem decodeText?_suffix (text : String) (rest : List UInt8) :
    decodeText? (encodeText text ++ rest) = some (text, rest) := by
  simp [decodeText?, encodeText, decodeList?_suffix decodeChar?_suffix]

/-! ## Scalars -/

def encodeScalar : Scalar → List UInt8
  | .null => [0]
  | .bool false => [1]
  | .bool true => [2]
  | .int (.ofNat value) => 3 :: encodeNat value
  | .int (.negSucc value) => 4 :: encodeNat value
  | .uint value => 5 :: encodeNat value
  | .double value => 6 :: encodeNat value.bits.toNat
  | .text value => 7 :: encodeText value

def decodeScalar? : List UInt8 → Option (Scalar × List UInt8)
  | [] => none
  | tag :: bytes =>
      match tag.toNat with
      | 0 => some (.null, bytes)
      | 1 => some (.bool false, bytes)
      | 2 => some (.bool true, bytes)
      | 3 => (decodeNat? bytes).map fun (value, rest) => (.int value, rest)
      | 4 => (decodeNat? bytes).map fun (value, rest) => (.int (.negSucc value), rest)
      | 5 => (decodeNat? bytes).map fun (value, rest) => (.uint value, rest)
      | 6 => (decodeNat? bytes).map fun (value, rest) => (.double ⟨.ofNat value⟩, rest)
      | 7 => (decodeText? bytes).map fun (value, rest) => (.text value, rest)
      | _ => none

@[simp] theorem decodeScalar?_suffix (value : Scalar) (rest : List UInt8) :
    decodeScalar? (encodeScalar value ++ rest) = some (value, rest) := by
  cases value with
  | bool value => cases value <;> simp [encodeScalar, decodeScalar?]
  | int value => cases value <;> simp [encodeScalar, decodeScalar?]
  | _ => simp [encodeScalar, decodeScalar?]

/-! ## Operations -/

def encodeKind : ObjectKind → List UInt8
  | .map => [0]
  | .list => [1]
  | .text => [2]

def decodeKind? : List UInt8 → Option (ObjectKind × List UInt8)
  | [] => none
  | tag :: bytes =>
      match tag.toNat with
      | 0 => some (.map, bytes)
      | 1 => some (.list, bytes)
      | 2 => some (.text, bytes)
      | _ => none

@[simp] theorem decodeKind?_suffix (kind : ObjectKind) (rest : List UInt8) :
    decodeKind? (encodeKind kind ++ rest) = some (kind, rest) := by
  cases kind <;> simp [encodeKind, decodeKind?]

def encodePlace : Place → List UInt8
  | .key name => 0 :: encodeText name
  | .index index => 1 :: encodeNat index

def decodePlace? : List UInt8 → Option (Place × List UInt8)
  | [] => none
  | tag :: bytes =>
      match tag.toNat with
      | 0 => (decodeText? bytes).map fun (name, rest) => (.key name, rest)
      | 1 => (decodeNat? bytes).map fun (index, rest) => (.index index, rest)
      | _ => none

@[simp] theorem decodePlace?_suffix (place : Place) (rest : List UInt8) :
    decodePlace? (encodePlace place ++ rest) = some (place, rest) := by
  cases place <;> simp [encodePlace, decodePlace?]

def encodeOperation : Operation → List UInt8
  | .make kind object place => 0 :: (encodeKind kind ++ encodeNat object ++ encodePlace place)
  | .set object place value => 1 :: (encodeNat object ++ encodePlace place ++ encodeScalar value)
  | .markBegin object start name value =>
      2 :: (encodeNat object ++ encodeNat start ++ encodeText name ++ encodeScalar value)
  | .markEnd object stop false => 3 :: (encodeNat object ++ encodeNat stop)
  | .markEnd object stop true => 4 :: (encodeNat object ++ encodeNat stop)

def decodeMarkEnd? (grows : Bool) (bytes : List UInt8) : Option (Operation × List UInt8) := do
  let (object, bytes) ← decodeNat? bytes
  let (stop, bytes) ← decodeNat? bytes
  return (.markEnd object stop grows, bytes)

def decodeOperation? : List UInt8 → Option (Operation × List UInt8)
  | [] => none
  | tag :: bytes =>
      match tag.toNat with
      | 0 => do
          let (kind, bytes) ← decodeKind? bytes
          let (object, bytes) ← decodeNat? bytes
          let (place, bytes) ← decodePlace? bytes
          return (.make kind object place, bytes)
      | 1 => do
          let (object, bytes) ← decodeNat? bytes
          let (place, bytes) ← decodePlace? bytes
          let (value, bytes) ← decodeScalar? bytes
          return (.set object place value, bytes)
      | 2 => do
          let (object, bytes) ← decodeNat? bytes
          let (start, bytes) ← decodeNat? bytes
          let (name, bytes) ← decodeText? bytes
          let (value, bytes) ← decodeScalar? bytes
          return (.markBegin object start name value, bytes)
      | 3 => decodeMarkEnd? false bytes
      | 4 => decodeMarkEnd? true bytes
      | _ => none

@[simp] theorem decodeOperation?_suffix (operation : Operation) (rest : List UInt8) :
    decodeOperation? (encodeOperation operation ++ rest) = some (operation, rest) := by
  cases operation with
  | markEnd object stop grows =>
      cases grows <;>
        simp [encodeOperation, decodeOperation?, decodeMarkEnd?, List.append_assoc]
  | _ => simp [encodeOperation, decodeOperation?, List.append_assoc]

/-! ## Whole payloads -/

def encodeByte (byte : UInt8) : List UInt8 := [byte]

def decodeByte? : List UInt8 → Option (UInt8 × List UInt8)
  | [] => none
  | byte :: bytes => some (byte, bytes)

theorem decodeByte?_suffix (byte : UInt8) (rest : List UInt8) :
    decodeByte? (encodeByte byte ++ rest) = some (byte, rest) := rfl

def encode (actor : Actor) (operations : List Operation) : List UInt8 :=
  encodeList encodeByte actor ++ encodeList encodeOperation operations

def decode? (bytes : List UInt8) : Option (Actor × List Operation) := do
  let (actor, bytes) ← decodeList? decodeByte? bytes
  match ← decodeList? decodeOperation? bytes with
  | (operations, []) => return (actor, operations)
  | _ => none

@[simp] theorem decode?_encode (actor : Actor) (operations : List Operation) :
    decode? (encode actor operations) = some (actor, operations) := by
  have whole := decodeList?_suffix decodeOperation?_suffix operations []
  rw [List.append_nil] at whole
  simp [decode?, encode, decodeList?_suffix decodeByte?_suffix, whole]

theorem encode_ne_nil (actor : Actor) (operations : List Operation) :
    encode actor operations ≠ [] := by
  simp [encode, encodeList, encodeNat_ne_nil]

end Payload

end BlockScribe
