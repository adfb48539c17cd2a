/-!
# Hexadecimal text

Bytes written with two lower-case digits each.  Reading takes either case, and
reading undoes writing.
-/

namespace BlockScribe.Hex

def digit (value : Nat) : Char :=
  if value < 10 then Char.ofNat (48 + value) else Char.ofNat (87 + value)

def digitValue? (c : Char) : Option Nat :=
  if '0' ≤ c ∧ c ≤ '9' then some (c.toNat - 48)
  else if 'a' ≤ c ∧ c ≤ 'f' then some (c.toNat - 87)
  else if 'A' ≤ c ∧ c ≤ 'F' then some (c.toNat - 55)
  else none

def encodeByte (byte : UInt8) : List Char :=
  [digit (byte.toNat / 16), digit (byte.toNat % 16)]

def encode (bytes : List UInt8) : List Char :=
  bytes.flatMap encodeByte

def decode? : List Char → Option (List UInt8)
  | [] => some []
  | [_] => none
  | high :: low :: rest => do
      let high ← digitValue? high
      let low ← digitValue? low
      let rest ← decode? rest
      return UInt8.ofNat (16 * high + low) :: rest

def value? (digits : List Char) : Option Nat :=
  digits.foldlM (fun value c => (16 * value + ·) <$> digitValue? c) 0

def ofNat (value : Nat) : String :=
  String.ofList (Nat.toDigits 16 value)

theorem digitValue?_digit : ∀ value < 16, digitValue? (digit value) = some value := by
  decide

@[simp] theorem encode_nil : encode [] = [] := rfl

@[simp] theorem encode_cons (byte : UInt8) (bytes : List UInt8) :
    encode (byte :: bytes) = encodeByte byte ++ encode bytes := rfl

@[simp] theorem decode?_encode (bytes : List UInt8) : decode? (encode bytes) = some bytes := by
  induction bytes with
  | nil => rfl
  | cons byte bytes ih =>
      have high : byte.toNat / 16 < 16 := by have := byte.toNat_lt; omega
      have low : byte.toNat % 16 < 16 := by omega
      have whole : UInt8.ofNat (16 * (byte.toNat / 16) + byte.toNat % 16) = byte := by
        rw [Nat.div_add_mod, UInt8.ofNat_toNat]
      simp only [encode_cons, encodeByte, List.cons_append, List.nil_append, decode?,
        digitValue?_digit _ high, digitValue?_digit _ low, ih, Option.bind_eq_bind,
        Option.bind_some, Option.pure_def, whole]

theorem length_encode (bytes : List UInt8) : (encode bytes).length = 2 * bytes.length := by
  induction bytes with
  | nil => rfl
  | cons byte bytes ih => simp [encodeByte, ih]; omega

end BlockScribe.Hex
