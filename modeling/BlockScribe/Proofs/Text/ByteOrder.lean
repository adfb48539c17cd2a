import BlockScribe.Text.Utf8
import Mathlib.Tactic.SplitIfs

/-!
# Order of texts and of their bytes

Texts are compared by the codes of their characters.  Their UTF-8 bytes compare
in the same way: the first byte grows with the length of a sequence, and within
one length the bytes are the digits of the code, the most significant first.
-/

namespace BlockScribe

/-! ## Characters -/

private theorem cons_ofNat_lt {m n : Nat} (xs ys : List UInt8) (small : m < 256)
    (small' : n < 256) :
    UInt8.ofNat m :: xs < UInt8.ofNat n :: ys ↔ m < n ∨ m = n ∧ xs < ys := by
  have first : m % 256 = m := Nat.mod_eq_of_lt small
  have second : n % 256 = n := Nat.mod_eq_of_lt small'
  simp [List.cons_lt_cons_iff, UInt8.lt_iff_toNat_lt, ← UInt8.toNat_inj, first, second]

private theorem digit_lt {m n : Nat} (below : m < n) :
    m / 64 < n / 64 ∨ m / 64 = n / 64 ∧ m % 64 < n % 64 := by
  omega

theorem utf8EncodeChar_lt {c d : Char} (below : c < d) (xs ys : List UInt8) :
    String.utf8EncodeChar c ++ xs < String.utf8EncodeChar d ++ ys := by
  have code : c.val.toNat < d.val.toNat := below
  have bound : d.val.toNat < 0x110000 := by
    rcases d.valid with small | ⟨_, small⟩
    · exact Nat.lt_trans small (by decide)
    · exact small
  simp only [String.utf8EncodeChar]
  generalize c.val.toNat = m at code
  generalize d.val.toNat = n at code bound
  -- Sequences of different lengths differ in their first byte, short ones digit by digit.
  split_ifs
  all_goals simp (disch := omega) only [List.cons_append, List.nil_append, cons_ofNat_lt]
  all_goals try omega
  have twice (code : Nat) : code / 4096 = code / 64 / 64 := by omega
  have thrice (code : Nat) : code / 262144 = code / 64 / 64 / 64 := by omega
  have top : n / 64 / 64 / 64 < 8 := by omega
  rw [twice, thrice, twice, thrice]
  rcases digit_lt code with less | ⟨same, less⟩
  · rcases digit_lt less with less | ⟨same, less⟩
    · rcases digit_lt less with less | ⟨same, less⟩
      · omega
      · simp [same, less]
    · simp [same, less]
  · simp [same, less]

/-! ## Texts -/

theorem utf8_lt {a b : String} (below : a < b) : utf8 a < utf8 b := by
  have chars : a.toList < b.toList := below
  rw [utf8, utf8]
  generalize a.toList = first at chars
  generalize b.toList = second at chars
  induction first generalizing second with
  | nil =>
      cases second with
      | nil => simp at chars
      | cons d second =>
          have some : String.utf8EncodeChar d ≠ [] := String.utf8EncodeChar_ne_nil
          obtain ⟨byte, bytes, encoded⟩ := List.exists_cons_of_ne_nil some
          simp [encoded]
  | cons c first ih =>
      cases second with
      | nil => simp at chars
      | cons d second =>
          rcases List.cons_lt_cons_iff.mp chars with less | ⟨rfl, less⟩
          · exact utf8EncodeChar_lt less _ _
          · exact List.append_left_lt (ih second less)

end BlockScribe
