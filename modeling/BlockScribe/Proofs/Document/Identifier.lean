import BlockScribe.Document.Identifier
import BlockScribe.Proofs.Record.OutputLine

/-!
# Derived ids, taken apart

An id shows the head of the digest that it is made of, and the message behind
the digest shows the position: every index takes eight bytes, so positions of
different depths have different messages too.  Only the digest between the two
could give one id to two positions of a document.
-/

namespace BlockScribe

/-! ## Numbers in bytes -/

namespace Sha256

theorem bigEndian_succ (count value : Nat) :
    bigEndian (count + 1) value = bigEndian count (value / 256) ++ [UInt8.ofNat value] := by
  have earlier : ∀ place ∈ List.range count,
      UInt8.ofNat (value >>> (8 * (count + 1 - 1 - place))) =
        UInt8.ofNat ((value / 256) >>> (8 * (count - 1 - place))) := by
    intro place inside
    rw [List.mem_range] at inside
    have shift : 8 * (count + 1 - 1 - place) = 8 + 8 * (count - 1 - place) := by omega
    rw [shift, Nat.shiftRight_add, Nat.shiftRight_eq_div_pow value 8]
  simp only [bigEndian, List.range_succ, List.map_append, List.map_congr_left earlier]
  simp

theorem bigEndian_inj {count value value' : Nat} (small : value < Nat.pow 256 count)
    (small' : value' < Nat.pow 256 count) :
    bigEndian count value = bigEndian count value' ↔ value = value' := by
  refine ⟨fun same => ?_, by rintro rfl; rfl⟩
  induction count generalizing value value' with
  | zero => simp_all [Nat.pow]
  | succ count ih =>
      have wider : Nat.pow 256 (count + 1) = Nat.pow 256 count * 256 := rfl
      rw [wider] at small small'
      rw [bigEndian_succ, bigEndian_succ] at same
      have ⟨high, low⟩ := List.append_inj' same rfl
      have quotient : value / 256 = value' / 256 := ih (by omega) (by omega) high
      have remainder : value % 256 = value' % 256 := by
        simpa using congrArg UInt8.toNat (List.singleton_inj.mp low)
      omega

end Sha256

/-! ## Messages -/

namespace Identifier

/-- Every index fits into its eight bytes, as the indices of any list in memory do. -/
def Counted (path : List Nat) : Prop :=
  ∀ index ∈ path, index < UInt64.size

theorem length_indexBytes (index : Nat) : (indexBytes index).length = 8 :=
  Sha256.length_bigEndian 8 index

theorem flatMap_indexBytes_inj {path path' : List Nat} (counted : Counted path)
    (counted' : Counted path') :
    path.flatMap indexBytes = path'.flatMap indexBytes ↔ path = path' := by
  refine ⟨fun same => ?_, by rintro rfl; rfl⟩
  induction path generalizing path' with
  | nil =>
      cases path' with
      | nil => rfl
      | cons index' path' =>
          have lengths := congrArg List.length same
          simp [length_indexBytes] at lengths
          omega
  | cons index path ih =>
      cases path' with
      | nil =>
          have lengths := congrArg List.length same
          simp [length_indexBytes] at lengths
      | cons index' path' =>
          simp only [Counted, List.forall_mem_cons] at counted counted'
          have widths : (indexBytes index).length = (indexBytes index').length := by
            rw [length_indexBytes, length_indexBytes]
          have ⟨first, later⟩ := List.append_inj same widths
          rw [(Sha256.bigEndian_inj counted.1 counted'.1).mp first,
            ih counted.2 counted'.2 later]

/-- Two positions below one name have one message only if they are one position. -/
theorem message_inj (store : String) {path path' : List Nat} (counted : Counted path)
    (counted' : Counted path') : message store path = message store path' ↔ path = path' := by
  rw [message, message, List.append_cancel_left_eq, flatMap_indexBytes_inj counted counted']

/-! ## Digits -/

/-- The part of a digest that an id shows. -/
def digestHead (store : String) (path : List Nat) : List UInt8 :=
  (Sha256.hash (message store path)).take 16

theorem filter_encode (bytes : List UInt8) :
    (Hex.encode bytes).filter Hex.isLowerDigit = Hex.encode bytes :=
  List.filter_eq_self.mpr fun _ member => Hex.isLowerDigit_of_mem_encode member

/-- The digits of an id are those of the first sixteen bytes. -/
theorem filter_grouped (bytes : List UInt8) :
    (grouped bytes).toList.filter Hex.isLowerDigit = Hex.encode (bytes.take 16) := by
  have groups : bytes.take 16 = bytes.take 4 ++ ((bytes.drop 4).take 2 ++
      ((bytes.drop 6).take 2 ++ ((bytes.drop 8).take 2 ++ (bytes.drop 10).take 6))) := by
    show bytes.take (4 + (2 + (2 + (2 + 6)))) = _
    rw [List.take_add, List.take_add, List.take_add, List.take_add]
    simp only [List.drop_drop]
  have dash : Hex.isLowerDigit '-' = false := by decide
  simp [grouped, List.intercalate, groups, Hex.encode_append, filter_encode, dash]

/-- Ids that are the same were made of digests with one head. -/
theorem digestHead_of_derive {store store' : String} {path path' : List Nat}
    (same : derive store path = derive store' path') :
    digestHead store path = digestHead store' path' := by
  rw [digestHead, digestHead, ← Hex.encode_inj, ← filter_grouped, ← filter_grouped]
  exact congrArg (fun id : String => id.toList.filter Hex.isLowerDigit) same

end Identifier

end BlockScribe
