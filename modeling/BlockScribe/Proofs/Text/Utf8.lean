import BlockScribe.Text.Utf8
import Mathlib.Tactic.SplitIfs

/-!
# Text survives its bytes

Nothing of a text is lost in its UTF-8 bytes: the decoder takes in the bytes of
one character after the other, and is between characters behind each.
-/

namespace BlockScribe

namespace Utf8

theorem decodeFrom_cons (state : State) (byte : UInt8) (bytes : List UInt8) :
    decodeFrom state (byte :: bytes) =
      (step state byte).1 ++ decodeFrom (step state byte).2 bytes := by
  cases state <;> rfl

theorem toNat_ofNat {value : Nat} (small : value < 256) : (UInt8.ofNat value).toNat = value := by
  simp [Nat.mod_eq_of_lt small]

/-! ## Leading bytes -/

theorem lead_one {code : Nat} (small : code < 0x80) :
    lead (UInt8.ofNat code) = ([Char.ofNat code], .between) := by
  have byte : (UInt8.ofNat code).toNat = code := toNat_ofNat (by omega)
  rw [lead, byte, if_pos small]

theorem lead_two : ∀ head < 0x20, 2 ≤ head →
    lead (UInt8.ofNat (head + 0xC0)) = ([], .inside 1 0x80 0xBF head) := by
  decide

def lowThree (head : Nat) : UInt8 :=
  if head = 0 then 0xA0 else 0x80

def highThree (head : Nat) : UInt8 :=
  if head = 0xD then 0x9F else 0xBF

theorem lead_three : ∀ head < 0x10, lead (UInt8.ofNat (head + 0xE0)) =
    ([], .inside 2 (lowThree head) (highThree head) head) := by
  decide

def lowFour (head : Nat) : UInt8 :=
  if head = 0 then 0x90 else 0x80

def highFour (head : Nat) : UInt8 :=
  if head = 4 then 0x8F else 0xBF

theorem lead_four : ∀ head < 5, lead (UInt8.ofNat (head + 0xF0)) =
    ([], .inside 3 (lowFour head) (highFour head) head) := by
  decide

/-! ## Bytes behind them -/

/-- A byte with this digit of six bits may stand next. -/
def Fits (low high : UInt8) (digit : Nat) : Prop :=
  low.toNat ≤ digit + 0x80 ∧ digit + 0x80 ≤ high.toNat

theorem fits_free {digit : Nat} (small : digit < 64) : Fits 0x80 0xBF digit :=
  ⟨Nat.le_add_left _ _, Nat.le_of_lt_succ (Nat.add_lt_add_right small 0x80)⟩

/-- Neither a code for fewer bytes nor one of a surrogate. -/
theorem fits_three {head digit : Nat} (small : digit < 64) (long : head = 0 → 0x20 ≤ digit)
    (single : head = 0xD → digit < 0x20) : Fits (lowThree head) (highThree head) digit := by
  have ⟨above, below⟩ := fits_free small
  refine ⟨?_, ?_⟩
  · rw [lowThree]
    split
    · next first => exact Nat.add_le_add_right (long first) 0x80
    · exact above
  · rw [highThree]
    split
    · next surrogate => exact Nat.le_of_lt_succ (Nat.add_lt_add_right (single surrogate) 0x80)
    · exact below

/-- Neither a code for fewer bytes nor one beyond the last. -/
theorem fits_four {head digit : Nat} (small : digit < 64) (long : head = 0 → 0x10 ≤ digit)
    (valid : head = 4 → digit < 0x10) : Fits (lowFour head) (highFour head) digit := by
  have ⟨above, below⟩ := fits_free small
  refine ⟨?_, ?_⟩
  · rw [lowFour]
    split
    · next first => exact Nat.add_le_add_right (long first) 0x80
    · exact above
  · rw [highFour]
    split
    · next last => exact Nat.le_of_lt_succ (Nat.add_lt_add_right (valid last) 0x80)
    · exact below

theorem decodeFrom_digit {missing digit : Nat} {low high : UInt8} (fits : Fits low high digit)
    (code : Nat) (bytes : List UInt8) :
    decodeFrom (.inside missing low high code) (UInt8.ofNat (digit + 0x80) :: bytes) =
      if missing ≤ 1 then Char.ofNat (code * 64 + digit) :: decodeFrom .between bytes
      else decodeFrom (.inside (missing - 1) 0x80 0xBF (code * 64 + digit)) bytes := by
  have bound := high.toNat_lt
  have byte : (UInt8.ofNat (digit + 0x80)).toNat = digit + 0x80 :=
    toNat_ofNat (Nat.lt_of_le_of_lt fits.2 bound)
  have within : low ≤ UInt8.ofNat (digit + 0x80) ∧ UInt8.ofNat (digit + 0x80) ≤ high := by
    rwa [UInt8.le_iff_toNat_le, UInt8.le_iff_toNat_le, byte]
  rw [decodeFrom_cons, step, if_pos within, byte, Nat.add_sub_cancel]
  split <;> rfl

/-! ## Characters -/

theorem decodeFrom_char (c : Char) (bytes : List UInt8) :
    decodeFrom .between (String.utf8EncodeChar c ++ bytes) = c :: decodeFrom .between bytes := by
  have whole : Char.ofNat c.val.toNat = c := Char.ofNat_toNat c
  have valid : c.val.toNat < 0xD800 ∨ 0xDFFF < c.val.toNat ∧ c.val.toNat < 0x110000 := c.valid
  simp only [String.utf8EncodeChar]
  refine Eq.trans ?_ (congrArg (· :: decodeFrom .between bytes) whole)
  generalize c.val.toNat = code at valid
  -- A code is taken apart into digits of six bits, and the decoder puts it together again.
  split_ifs with one two three
  all_goals simp only [List.cons_append, List.nil_append]
  all_goals rw [decodeFrom_cons, step]
  · rw [lead_one (by omega)]
    rfl
  · have digits : code / 64 % 32 * 64 + code % 64 = code := by omega
    rw [lead_two _ (by omega) (by omega), List.nil_append,
      decodeFrom_digit (fits_free (by omega)), if_pos (by decide), digits]
  · have digits : (code / 4096 % 16 * 64 + code / 64 % 64) * 64 + code % 64 = code := by omega
    have fits : Fits (lowThree (code / 4096 % 16)) (highThree (code / 4096 % 16))
        (code / 64 % 64) := fits_three (by omega) (by omega) (by omega)
    rw [lead_three _ (by omega), List.nil_append, decodeFrom_digit fits, if_neg (by decide),
      decodeFrom_digit (fits_free (by omega)), if_pos (by decide), digits]
  · have digits : ((code / 262144 % 8 * 64 + code / 4096 % 64) * 64 + code / 64 % 64) * 64 +
        code % 64 = code := by omega
    have fits : Fits (lowFour (code / 262144 % 8)) (highFour (code / 262144 % 8))
        (code / 4096 % 64) := fits_four (by omega) (by omega) (by omega)
    rw [lead_four _ (by omega), List.nil_append, decodeFrom_digit fits, if_neg (by decide),
      decodeFrom_digit (fits_free (by omega)), if_neg (by decide),
      decodeFrom_digit (fits_free (by omega)), if_pos (by decide), digits]

/-- Bytes below those of longer sequences stand for themselves. -/
theorem toNat_of_mem_char {c : Char} {byte : UInt8} (member : byte ∈ String.utf8EncodeChar c)
    (single : byte.toNat < 0x80) : c.toNat = byte.toNat := by
  show c.val.toNat = byte.toNat
  simp only [String.utf8EncodeChar] at member
  generalize c.val.toNat = code at member
  split_ifs at member
  all_goals simp only [List.mem_cons, List.not_mem_nil, or_false] at member
  · rw [member, toNat_ofNat (by omega)]
  · rcases member with rfl | rfl
    all_goals
      rw [toNat_ofNat (by omega)] at single
      omega
  · rcases member with rfl | rfl | rfl
    all_goals
      rw [toNat_ofNat (by omega)] at single
      omega
  · rcases member with rfl | rfl | rfl | rfl
    all_goals
      rw [toNat_ofNat (by omega)] at single
      omega

end Utf8

theorem decodeFrom_utf8 (text : String) (bytes : List UInt8) :
    Utf8.decodeFrom .between (utf8 text ++ bytes) =
      text.toList ++ Utf8.decodeFrom .between bytes := by
  rw [utf8]
  induction text.toList with
  | nil => rfl
  | cons c chars ih =>
      rw [List.flatMap_cons, List.append_assoc, Utf8.decodeFrom_char, ih, List.cons_append]

theorem decodeLossy_utf8 (text : String) : decodeLossy (utf8 text) = text.toList := by
  have whole := decodeFrom_utf8 text []
  rwa [List.append_nil, Utf8.decodeFrom, List.append_nil] at whole

theorem utf8_inj {text text' : String} : utf8 text = utf8 text' ↔ text = text' := by
  refine ⟨fun same => ?_, by rintro rfl; rfl⟩
  rw [← String.toList_inj, ← decodeLossy_utf8, ← decodeLossy_utf8, same]

/-- A byte below 0x80 is one of a text only by its own character. -/
theorem ascii_not_mem_utf8 {byte : UInt8} {c : Char} (ascii : byte.toNat < 0x80)
    (same : c.toNat = byte.toNat) {text : String} (absent : c ∉ text.toList) :
    byte ∉ utf8 text := by
  intro member
  obtain ⟨other, listed, inside⟩ := List.mem_flatMap.mp member
  have code : other.toNat = c.toNat := (Utf8.toNat_of_mem_char inside ascii).trans same.symm
  exact absent (Char.toNat_inj.mp code ▸ listed)

end BlockScribe
