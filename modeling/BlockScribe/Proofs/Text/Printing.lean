import BlockScribe.Json.Fault
import BlockScribe.Json.Quotation

/-!
# What is printed

Text without control characters, and so without line breaks.  Numbers are made
of digits and a few marks, and a quotation writes every control in some other
way, so both can stand on a line whatever they say.  No value is printed as
nothing at all.
-/

namespace BlockScribe

def ControlFree (text : List Char) : Prop :=
  ∀ c ∈ text, ¬Json.isControl c

namespace ControlFree

instance (text : List Char) : Decidable (ControlFree text) :=
  List.decidableBAll _ text

theorem nil : ControlFree [] := nofun

theorem cons {c : Char} {text : List Char} (first : ¬Json.isControl c)
    (rest : ControlFree text) : ControlFree (c :: text) :=
  List.forall_mem_cons.mpr ⟨first, rest⟩

theorem append {a b : List Char} (first : ControlFree a) (second : ControlFree b) :
    ControlFree (a ++ b) :=
  List.forall_mem_append.mpr ⟨first, second⟩

theorem flatMap {α : Type} {values : List α} {write : α → List Char}
    (each : ∀ value ∈ values, ControlFree (write value)) : ControlFree (values.flatMap write) := by
  intro c member
  obtain ⟨value, there, member⟩ := List.mem_flatMap.mp member
  exact each value there c member

theorem replicate {c : Char} (single : ¬Json.isControl c) (count : Nat) :
    ControlFree (List.replicate count c) := by
  intro _ member
  rwa [(List.mem_replicate.mp member).2]

theorem toList_append {a b : String} (first : ControlFree a.toList)
    (second : ControlFree b.toList) : ControlFree (a ++ b).toList := by
  rw [String.toList_append]
  exact first.append second

theorem lineFeed_not_mem {text : List Char} (free : ControlFree text) : '\n' ∉ text :=
  fun member => free '\n' member (by decide)

end ControlFree

/-! ## Numbers -/

theorem isControl_digitChar (digit : Nat) : ¬Json.isControl (Nat.digitChar digit) := by
  by_cases small : digit < 16
  · have each : ∀ digit < 16, ¬Json.isControl (Nat.digitChar digit) := by decide
    exact each digit small
  · have star : Nat.digitChar digit = '*' := by
      unfold Nat.digitChar
      repeat rw [if_neg (by omega)]
    rw [star]
    decide

theorem controlFree_toDigitsCore (base fuel value : Nat) {digits : List Char}
    (free : ControlFree digits) : ControlFree (Nat.toDigitsCore base fuel value digits) := by
  induction fuel generalizing value digits with
  | zero => exact free
  | succ fuel ih =>
      have longer := free.cons (isControl_digitChar (value % base))
      rw [Nat.toDigitsCore]
      split
      · exact longer
      · exact ih _ longer

theorem controlFree_toDigits (base value : Nat) : ControlFree (Nat.toDigits base value) :=
  controlFree_toDigitsCore base (value + 1) value .nil

theorem controlFree_toString (value : Nat) : ControlFree (toString value).toList := by
  rw [Nat.toString_eq_repr, Nat.toList_repr]
  exact controlFree_toDigits 10 value

namespace Json

theorem controlFree_compactInt (value : Int) : ControlFree (compactInt value) := by
  unfold compactInt
  split
  · exact (controlFree_toDigits 10 _).cons (by decide)
  · exact controlFree_toDigits 10 _

theorem controlFree_digitChars (digits : List Nat) : ControlFree (digitChars digits) := by
  intro c member
  obtain ⟨digit, -, rfl⟩ := List.mem_map.mp member
  exact isControl_digitChar digit

theorem controlFree_positional (digits : List Nat) (exponent : Int) :
    ControlFree (positional digits exponent) := by
  have zero : ¬isControl '0' := by decide
  have point : ¬isControl '.' := by decide
  unfold positional
  split
  · exact (((ControlFree.nil.cons point).cons zero).append (.replicate zero _)).append
      (controlFree_digitChars digits)
  · refine (((controlFree_digitChars _).append (.replicate zero _)).append
      (ControlFree.nil.cons point)).append ?_
    split
    · exact ControlFree.nil.cons zero
    · exact controlFree_digitChars _

theorem controlFree_scientific (digits : List Nat) (exponent : Int) :
    ControlFree (scientific digits exponent) := by
  unfold scientific
  refine (((controlFree_digitChars _).append ?_).append ?_).append (controlFree_toDigits 10 _)
  · split
    · exact .nil
    · exact (controlFree_digitChars _).cons (by decide)
  · refine .cons (by decide) (ControlFree.nil.cons ?_)
    split <;> decide

theorem controlFree_compactDouble (x : Double) : ControlFree (compactDouble x) := by
  unfold compactDouble
  extract_lets magnitude
  have free : ControlFree magnitude := by
    unfold magnitude
    split
    · decide
    · split
      split
      · exact controlFree_positional _ _
      · exact controlFree_scientific _ _
  split
  · exact free.cons (by decide)
  · exact free

theorem controlFree_compactNumber (number : Number) : ControlFree (compactNumber number) := by
  cases number with
  | integer value => exact controlFree_compactInt value
  | double value => exact controlFree_compactDouble value

end Json

/-! ## Quotations -/

theorem isControl_of_isVisible {c : Char} (visible : isVisible c) : ¬Json.isControl c := by
  intro control
  have controls : (0x0, 0x1F) ∈ hiddenRanges := List.mem_cons_self
  have below : c.toNat < 0x20 := by simpa [Json.isControl] using control
  have hidden : hiddenRanges.any (fun range => range.1 ≤ c.toNat && c.toNat ≤ range.2) :=
    List.any_eq_true.mpr ⟨_, controls, by simp; omega⟩
  simp [isVisible, hidden] at visible

theorem controlFree_quoteChar {mark : Char} (plain : ¬Json.isControl mark) (c : Char) :
    ControlFree (quoteChar mark c) := by
  have backslash : ¬Json.isControl '\\' := by decide
  unfold quoteChar
  split
  · exact (ControlFree.nil.cons (by decide)).cons backslash
  · exact (ControlFree.nil.cons (by decide)).cons backslash
  · exact (ControlFree.nil.cons (by decide)).cons backslash
  · exact (ControlFree.nil.cons (by decide)).cons backslash
  · exact (ControlFree.nil.cons backslash).cons backslash
  · split
    · next same => exact (ControlFree.nil.cons (same ▸ plain)).cons backslash
    · split
      · next visible => exact ControlFree.nil.cons (isControl_of_isVisible visible)
      · have digits : ControlFree (Hex.ofNat c.toNat).toList := by
          rw [Hex.ofNat, String.toList_ofList]
          exact controlFree_toDigits 16 _
        have opening : ControlFree ['\\', 'u', '\x7b'] := by decide
        exact (opening.append digits).append (ControlFree.nil.cons (by decide))

theorem controlFree_quotedText (text : String) : ControlFree (quotedText text).toList := by
  have mark : ¬Json.isControl '"' := by decide
  rw [quotedText, String.toList_ofList]
  exact .append (.cons mark (.flatMap fun c _ => controlFree_quoteChar mark c))
    (ControlFree.nil.cons mark)

/-! ## JSON texts -/

namespace Json

theorem isControl_hexDigit : ∀ value < 16, ¬isControl (Hex.digit value) := by
  decide

theorem controlFree_escape (c : Char) : ControlFree (escape c) := by
  unfold escape
  split
  case h_8 =>
    split
    · next control =>
        have opening : ControlFree ['\\', 'u', '0', '0'] := by decide
        refine opening.append (.cons (isControl_hexDigit _ ?_)
          (.cons (isControl_hexDigit _ ?_) .nil)) <;> omega
    · next visible => exact .cons (by simpa [isControl] using visible) .nil
  all_goals decide

theorem controlFree_compactString (text : String) : ControlFree (compactString text) :=
  .append (.cons (by decide) (.flatMap fun c _ => controlFree_escape c)) (by decide)

mutual

theorem controlFree_compactChars : (value : Json) → ControlFree value.compactChars
  | .null | .bool true | .bool false => by
      rw [compactChars]
      decide
  | .number value => by
      rw [compactChars]
      exact controlFree_compactNumber value
  | .string value => by
      rw [compactChars]
      exact controlFree_compactString value
  | .array items => by
      rw [compactChars]
      exact .append (.cons (by decide) (controlFree_compactItems items)) (by decide)
  | .object members => by
      rw [compactChars]
      exact .append (.cons (by decide) (controlFree_compactMembers members)) (by decide)

theorem controlFree_compactItems : (items : List Json) → ControlFree (compactItems items)
  | [] => .nil
  | [item] => by
      rw [compactItems]
      exact controlFree_compactChars item
  | item :: next :: items => by
      rw [compactItems]
      · exact (controlFree_compactChars item).append
          (.cons (by decide) (controlFree_compactItems (next :: items)))
      · exact nofun

theorem controlFree_compactMembers : (members : List (String × Json)) →
    ControlFree (compactMembers members)
  | [] => .nil
  | [(name, value)] => by
      rw [compactMembers]
      exact (controlFree_compactString name).append
        (.cons (by decide) (controlFree_compactChars value))
  | (name, value) :: next :: members => by
      rw [compactMembers]
      · exact ((controlFree_compactString name).append
          (.cons (by decide) (controlFree_compactChars value))).append
            (.cons (by decide) (controlFree_compactMembers (next :: members)))
      · exact nofun

end

/-! ### Some text for every value -/

theorem compactInt_ne_nil (value : Int) : compactInt value ≠ [] := by
  unfold compactInt
  split
  · exact List.cons_ne_nil _ _
  · exact Nat.toDigits_ne_nil

/-- Positional notation has a point, and the other one an exponent. -/
theorem compactDouble_ne_nil (x : Double) : compactDouble x ≠ [] := by
  unfold compactDouble
  extract_lets magnitude
  have printed : magnitude ≠ [] := by
    unfold magnitude
    split
    · exact List.cons_ne_nil _ _
    · split
      split
      · unfold positional
        split <;> simp
      · simp [scientific]
  split
  · exact List.cons_ne_nil _ _
  · exact printed

theorem compactChars_ne_nil (value : Json) : value.compactChars ≠ [] := by
  cases value with
  | null => exact List.cons_ne_nil _ _
  | bool value => cases value <;> exact List.cons_ne_nil _ _
  | number value =>
      rw [compactChars]
      cases value with
      | integer value => exact compactInt_ne_nil value
      | double value => exact compactDouble_ne_nil value
  | string | array | object =>
      rw [compactChars]
      exact List.cons_ne_nil _ _

theorem isEmpty_compact (value : Json) : value.compact.isEmpty = false := by
  refine Bool.eq_false_iff.mpr fun empty => compactChars_ne_nil value ?_
  have chars := congrArg String.toList (String.isEmpty_iff.mp empty)
  rwa [compact, String.toList_ofList] at chars

end Json

end BlockScribe
