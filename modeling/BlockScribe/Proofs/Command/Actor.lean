import BlockScribe.Command.Actor
import BlockScribe.Proofs.Text.Hex
import Mathlib.Data.List.Basic

/-!
# Actors are written in one way but for case

An argument is an actor if it is made of hexadecimal digits, two for each byte,
and is not empty.  The actor written down again is the argument in lower case,
so arguments that differ in more than case are different actors.  What is no
actor is refused for its length first, and then for the first byte that is no
digit.
-/

namespace BlockScribe

/-! ## Bytes of an argument -/

namespace Actor

theorem charOf_ofNat {c : Char} (ascii : c.toNat < 0x80) :
    charOf (UInt8.ofNat c.toNat) = c := by
  rw [charOf, Utf8.toNat_ofNat (by omega), Char.ofNat_toNat]

theorem map_charOf_char {c : Char} (digit : Hex.IsDigit c) :
    (String.utf8EncodeChar c).map charOf = [c] := by
  have ascii : c.val.toNat ≤ 0x7F := Nat.le_of_lt_succ digit.ascii
  rw [String.utf8EncodeChar, if_pos ascii]
  exact congrArg (· :: []) (charOf_ofNat digit.ascii)

/-- No byte of a character that takes several is a digit. -/
theorem isDigit_of_char {c : Char}
    (digits : ∀ byte ∈ String.utf8EncodeChar c, Hex.IsDigit (charOf byte)) : Hex.IsDigit c := by
  obtain ⟨byte, member⟩ := List.exists_mem_of_ne_nil _ (String.utf8EncodeChar_ne_nil (c := c))
  have digit := digits byte member
  have code : (charOf byte).toNat = byte.toNat := by
    have valid : byte.toNat.isValidChar := .inl (Nat.lt_trans byte.toNat_lt (by decide))
    rw [charOf, Char.ofNat, dif_pos valid]
    rfl
  have same : c.toNat = byte.toNat := Utf8.toNat_of_mem_char member (code ▸ digit.ascii)
  rwa [charOf, ← same, Char.ofNat_toNat] at digit

theorem isDigit_utf8 (text : String) :
    (∀ byte ∈ utf8 text, Hex.IsDigit (charOf byte)) ↔ ∀ c ∈ text.toList, Hex.IsDigit c := by
  constructor
  · intro digits c member
    exact isDigit_of_char fun byte inside =>
      digits byte (List.mem_flatMap.mpr ⟨c, member, inside⟩)
  · intro digits byte member
    obtain ⟨c, listed, inside⟩ := List.mem_flatMap.mp member
    have here : charOf byte ∈ (String.utf8EncodeChar c).map charOf := List.mem_map_of_mem inside
    rw [map_charOf_char (digits c listed), List.mem_singleton] at here
    exact here ▸ digits c listed

theorem map_charOf_utf8 {text : String} (digits : ∀ c ∈ text.toList, Hex.IsDigit c) :
    (utf8 text).map charOf = text.toList := by
  rw [utf8, List.map_flatMap]
  calc text.toList.flatMap (fun c => (String.utf8EncodeChar c).map charOf)
      = text.toList.flatMap (fun c => [c]) :=
        List.flatMap_congr fun c member => map_charOf_char (digits c member)
    _ = text.toList := by simp

/-! ## First bytes that are no digits -/

theorem firstBad?_eq_none (position : Nat) (bytes : List UInt8) :
    firstBad? position bytes = none ↔ ∀ byte ∈ bytes, Hex.IsDigit (charOf byte) := by
  induction bytes generalizing position with
  | nil => simp [firstBad?]
  | cons byte bytes ih =>
      rw [firstBad?, List.forall_mem_cons, ← Hex.isSome_digitValue?, ← ih (position + 1)]
      split <;> simp [*]

theorem firstBad?_eq_some {position found : Nat} {bytes : List UInt8} {byte : UInt8} :
    firstBad? position bytes = some (byte, found) ↔
      ∃ before behind, bytes = before ++ byte :: behind ∧ found = position + before.length ∧
        (∀ earlier ∈ before, Hex.IsDigit (charOf earlier)) ∧ ¬Hex.IsDigit (charOf byte) := by
  induction bytes generalizing position with
  | nil => simp [firstBad?]
  | cons first bytes ih =>
      rw [firstBad?]
      split
      · next digit =>
          rw [Hex.isSome_digitValue?] at digit
          rw [ih]
          constructor
          · rintro ⟨before, behind, rfl, rfl, digits, bad⟩
            exact ⟨first :: before, behind, rfl, by rw [List.length_cons]; omega,
              List.forall_mem_cons.mpr ⟨digit, digits⟩, bad⟩
          · rintro ⟨_ | ⟨head, before⟩, behind, same, rfl, digits, bad⟩
            · cases same
              exact absurd digit bad
            · cases same
              exact ⟨before, behind, rfl, by rw [List.length_cons]; omega,
                (List.forall_mem_cons.mp digits).2, bad⟩
      · next noDigit =>
          rw [Hex.isSome_digitValue?] at noDigit
          constructor
          · rintro ⟨⟩
            exact ⟨[], bytes, rfl, rfl, nofun, noDigit⟩
          · rintro ⟨_ | ⟨head, before⟩, behind, same, rfl, digits, bad⟩
            · cases same
              rfl
            · cases same
              exact absurd (digits first List.mem_cons_self) noDigit

/-! ## Arguments -/

theorem length_eq_of_digits {text : String} (digits : ∀ c ∈ text.toList, Hex.IsDigit c) :
    (utf8 text).length = text.length := by
  have lengths := congrArg List.length (map_charOf_utf8 digits)
  rwa [List.length_map, String.length_toList] at lengths

theorem parse_of_odd {text : String} (odd : ¬2 ∣ (utf8 text).length) :
    parse text = .error .oddLength := by
  rw [parse, if_pos (by omega)]

theorem parse_of_bad {text : String} {byte : UInt8} {position : Nat}
    (even : 2 ∣ (utf8 text).length) (bad : firstBad? 0 (utf8 text) = some (byte, position)) :
    parse text = .error (.notHex byte position) := by
  simp only [parse, bad, if_neg (by omega : ¬(utf8 text).length % 2 ≠ 0)]

theorem decode?_eq_nil {text : String} : Hex.decode? text.toList = some [] ↔ text = "" := by
  constructor
  · intro decoded
    have lower := Hex.encode_of_decode? decoded
    rw [Hex.encode_nil, eq_comm, List.map_eq_nil_iff] at lower
    exact String.toList_eq_nil_iff.mp lower
  · rintro rfl
    rfl

theorem parse_of_decoded {text : String} {actor : Actor} (something : text ≠ "")
    (decoded : Hex.decode? text.toList = some actor) : parse text = .ok actor := by
  obtain ⟨even, digits⟩ := (Hex.isSome_decode? _).mp (Option.isSome_of_eq_some decoded)
  rw [String.length_toList, ← length_eq_of_digits digits] at even
  have good : firstBad? 0 (utf8 text) = none :=
    (firstBad?_eq_none 0 _).mpr ((isDigit_utf8 text).mpr digits)
  simp only [parse, good, map_charOf_utf8 digits, decoded,
    if_neg (by omega : ¬(utf8 text).length % 2 ≠ 0)]
  cases actor with
  | nil => exact absurd (decode?_eq_nil.mp decoded) something
  | cons byte bytes => rfl

/-- What an argument comes to: its length is looked at first, and then its bytes. -/
inductive ReadsAs (text : String) : Except ActorError Actor → Prop
  | oddLength (odd : ¬2 ∣ (utf8 text).length) : ReadsAs text (.error .oddLength)
  | notHex {byte : UInt8} {position : Nat} (even : 2 ∣ (utf8 text).length)
      (bad : firstBad? 0 (utf8 text) = some (byte, position)) :
      ReadsAs text (.error (.notHex byte position))
  | empty (nothing : text = "") : ReadsAs text (.error .empty)
  | actor {actor : Actor} (something : text ≠ "")
      (decoded : Hex.decode? text.toList = some actor) : ReadsAs text (.ok actor)

theorem ReadsAs.parse_eq {text : String} {result : Except ActorError Actor}
    (reads : ReadsAs text result) : parse text = result := by
  cases reads with
  | oddLength odd => exact parse_of_odd odd
  | notHex even bad => exact parse_of_bad even bad
  | empty nothing =>
      rw [nothing]
      rfl
  | actor something decoded => exact parse_of_decoded something decoded

theorem exists_readsAs (text : String) : ∃ result, ReadsAs text result := by
  by_cases even : 2 ∣ (utf8 text).length
  · cases found : firstBad? 0 (utf8 text) with
    | some bad => exact ⟨_, .notHex even found⟩
    | none =>
        by_cases nothing : text = ""
        · exact ⟨_, .empty nothing⟩
        · have digits := (isDigit_utf8 text).mp ((firstBad?_eq_none 0 _).mp found)
          rw [length_eq_of_digits digits, ← String.length_toList] at even
          obtain ⟨actor, decoded⟩ :=
            Option.isSome_iff_exists.mp ((Hex.isSome_decode? _).mpr ⟨even, digits⟩)
          exact ⟨_, .actor nothing decoded⟩
  · exact ⟨_, .oddLength even⟩

theorem parse_eq_iff {text : String} {result : Except ActorError Actor} :
    parse text = result ↔ ReadsAs text result := by
  constructor
  · rintro rfl
    obtain ⟨result, reads⟩ := exists_readsAs text
    rwa [reads.parse_eq]
  · exact ReadsAs.parse_eq

theorem parse_eq_ok {text : String} {actor : Actor} :
    parse text = .ok actor ↔ text ≠ "" ∧ Hex.decode? text.toList = some actor := by
  rw [parse_eq_iff]
  constructor
  · rintro ⟨⟩
    next something decoded => exact ⟨something, decoded⟩
  · rintro ⟨something, decoded⟩
    exact .actor something decoded

theorem parse_eq_notHex {text : String} {byte : UInt8} {position : Nat} :
    parse text = .error (.notHex byte position) ↔
      2 ∣ (utf8 text).length ∧ firstBad? 0 (utf8 text) = some (byte, position) := by
  rw [parse_eq_iff]
  constructor
  · rintro ⟨⟩
    next even bad => exact ⟨even, bad⟩
  · rintro ⟨even, bad⟩
    exact .notHex even bad

theorem parse_eq_oddLength {text : String} :
    parse text = .error .oddLength ↔ ¬2 ∣ (utf8 text).length := by
  rw [parse_eq_iff]
  refine ⟨?_, .oddLength⟩
  rintro ⟨⟩
  assumption

theorem parse_eq_empty {text : String} : parse text = .error .empty ↔ text = "" := by
  rw [parse_eq_iff]
  refine ⟨?_, .empty⟩
  rintro ⟨⟩
  assumption

/--
An argument is an actor if it is not empty and made of two digits for each byte.
Written down again it is in lower case, and nothing else of it is lost; and what
is written down is read again.  Any other argument is refused: for the number of
its bytes if that is odd, else for the first byte that is no digit, even if that
is only a part of a character.
-/
theorem parse_hexadecimal (text : String) :
    ((∃ actor, parse text = .ok actor) ↔
      text ≠ "" ∧ 2 ∣ text.length ∧ ∀ c ∈ text.toList, Hex.IsDigit c) ∧
    (∀ actor, parse text = .ok actor → Hex.encode actor = text.toList.map Char.toLower) ∧
    (∀ actor : Actor, actor ≠ [] → parse (String.ofList (Hex.encode actor)) = .ok actor) ∧
    (∀ other actor actor', parse text = .ok actor → parse other = .ok actor' →
      (actor = actor' ↔ text.toList.map Char.toLower = other.toList.map Char.toLower)) ∧
    (parse text = .error .oddLength ↔ ¬2 ∣ (utf8 text).length) ∧
    (∀ byte position, parse text = .error (.notHex byte position) ↔
      2 ∣ (utf8 text).length ∧ ∃ before behind, utf8 text = before ++ byte :: behind ∧
        position = before.length ∧ (∀ earlier ∈ before, Hex.IsDigit (charOf earlier)) ∧
        ¬Hex.IsDigit (charOf byte)) ∧
    (parse text = .error .empty ↔ text = "") := by
  have lower {text : String} {actor : Actor} (parsed : parse text = .ok actor) :
      Hex.encode actor = text.toList.map Char.toLower :=
    Hex.encode_of_decode? (parse_eq_ok.mp parsed).2
  refine ⟨?_, fun _ => lower, fun actor nonempty => ?_, fun other actor actor' parsed parsed' => ?_,
    parse_eq_oddLength, fun byte position => ?_, parse_eq_empty⟩
  · simp only [parse_eq_ok, exists_and_left]
    rw [← Option.isSome_iff_exists, Hex.isSome_decode?, String.length_toList]
  · rw [parse_eq_ok, String.toList_ofList, Hex.decode?_encode]
    refine ⟨fun empty => nonempty ?_, rfl⟩
    have chars := congrArg String.toList empty
    rw [String.toList_ofList] at chars
    exact Hex.encode_inj.mp chars
  · rw [← lower parsed, ← lower parsed', Hex.encode_inj]
  · simp only [parse_eq_notHex, firstBad?_eq_some, Nat.zero_add]

/-- A character of two bytes is refused at its first. -/
example : parse "0é1" = .error (.notHex 0xC3 1) := by
  decide +kernel

end Actor

end BlockScribe
