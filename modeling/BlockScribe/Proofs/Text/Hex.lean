import BlockScribe.Proofs.Text.Utf8
import BlockScribe.Text.Hex

/-!
# Digits of hexadecimal text

Text is read as bytes if it is made of digits and of two for each byte.  The
bytes written down again are the text in lower case, and only those are the
digits that bytes are written with.
-/

namespace BlockScribe.Hex

/-! ## Written digits -/

def isLowerDigit (c : Char) : Bool :=
  ('0' ≤ c && c ≤ '9') || ('a' ≤ c && c ≤ 'f')

theorem isLowerDigit_digit : ∀ value < 16, isLowerDigit (digit value) = true := by
  decide

theorem isLowerDigit_of_mem_encode {bytes : List UInt8} {c : Char} (member : c ∈ encode bytes) :
    isLowerDigit c := by
  obtain ⟨byte, -, member⟩ := List.mem_flatMap.mp member
  have high : byte.toNat / 16 < 16 := by
    have := byte.toNat_lt
    omega
  have low : byte.toNat % 16 < 16 := by omega
  rw [encodeByte, List.mem_cons, List.mem_singleton] at member
  rcases member with rfl | rfl
  · exact isLowerDigit_digit _ high
  · exact isLowerDigit_digit _ low

theorem encode_append (a b : List UInt8) : encode (a ++ b) = encode a ++ encode b :=
  List.flatMap_append

theorem encode_inj {a b : List UInt8} : encode a = encode b ↔ a = b := by
  refine ⟨fun same => ?_, by rintro rfl; rfl⟩
  simpa using congrArg decode? same

/-! ## Read digits -/

def IsDigit (c : Char) : Prop :=
  ('0' ≤ c ∧ c ≤ '9') ∨ ('a' ≤ c ∧ c ≤ 'f') ∨ ('A' ≤ c ∧ c ≤ 'F')

instance (c : Char) : Decidable (IsDigit c) := by
  unfold IsDigit
  infer_instance

theorem isSome_digitValue? (c : Char) : (digitValue? c).isSome ↔ IsDigit c := by
  unfold digitValue? IsDigit
  split
  · next decimal => simp [decimal]
  · next notDecimal =>
      split
      · next lower => simp [lower]
      · next notLower =>
          split
          · next upper => simp [upper]
          · next notUpper => simp [notDecimal, notLower, notUpper]

theorem IsDigit.ascii {c : Char} (digit : IsDigit c) : c.toNat < 0x80 := by
  have bound {low high : Char} (inside : low ≤ c ∧ c ≤ high) : c.toNat ≤ high.toNat :=
    UInt32.le_iff_toNat_le.mp (Char.le_def.mp inside.2)
  rcases digit with inside | inside | inside
  · exact Nat.lt_of_le_of_lt (bound inside) (by decide)
  · exact Nat.lt_of_le_of_lt (bound inside) (by decide)
  · exact Nat.lt_of_le_of_lt (bound inside) (by decide)

/-- A digit written down again is the digit in lower case. -/
theorem digit_of_digitValue? {c : Char} {value : Nat} (known : digitValue? c = some value) :
    value < 16 ∧ digit value = c.toLower := by
  have each : ∀ code < 0x80, ∀ value ∈ digitValue? (Char.ofNat code),
      value < 16 ∧ digit value = (Char.ofNat code).toLower := by decide
  have ascii : c.toNat < 0x80 :=
    ((isSome_digitValue? c).mp (Option.isSome_of_eq_some known)).ascii
  rw [← Char.ofNat_toNat c] at known ⊢
  exact each c.toNat ascii value known

theorem isSome_decode? : ∀ chars : List Char,
    (decode? chars).isSome ↔ 2 ∣ chars.length ∧ ∀ c ∈ chars, IsDigit c
  | [] => by simp [decode?]
  | [_] => by simp [decode?]
  | high :: low :: rest => by
      have length : 2 ∣ (high :: low :: rest).length ↔ 2 ∣ rest.length := by
        simp only [List.length_cons]
        omega
      rw [List.forall_mem_cons, List.forall_mem_cons, ← isSome_digitValue?,
        ← isSome_digitValue?, length, and_left_comm, and_left_comm (b := _ = true),
        ← isSome_decode? rest, decode?]
      cases digitValue? high <;> cases digitValue? low <;> cases decode? rest <;> simp

theorem encode_of_decode? : ∀ {chars : List Char} {bytes : List UInt8},
    decode? chars = some bytes → encode bytes = chars.map Char.toLower
  | [], bytes, decoded => by
      cases decoded
      rfl
  | [_], _, decoded => by cases decoded
  | high :: low :: rest, bytes, decoded => by
      simp only [decode?, Option.bind_eq_bind, Option.bind_eq_some_iff, Option.pure_def,
        Option.some.injEq] at decoded
      obtain ⟨first, highKnown, second, lowKnown, later, decoded, rfl⟩ := decoded
      obtain ⟨firstSmall, firstDigit⟩ := digit_of_digitValue? highKnown
      obtain ⟨secondSmall, secondDigit⟩ := digit_of_digitValue? lowKnown
      have byte : (UInt8.ofNat (16 * first + second)).toNat = 16 * first + second :=
        Utf8.toNat_ofNat (by omega)
      have quotient : (16 * first + second) / 16 = first := by omega
      have remainder : (16 * first + second) % 16 = second := by omega
      rw [encode_cons, encodeByte, byte, quotient, remainder, firstDigit, secondDigit,
        encode_of_decode? decoded]
      rfl

end BlockScribe.Hex
