import BlockScribe.Json.Read
import BlockScribe.Proofs.Text.Printing
import Mathlib.Tactic.Common

/-!
# Compact text reads back

Any value without doubles is read from its compact text as it was, as long as
it is not nested too deep.  The builder takes in the text of a value wherever a
value may stand, and puts a node there that has the value.
-/

namespace BlockScribe.Json

/-! ## Strings -/

theorem hexQuad_control : ∀ code < 0x20, ∀ rest index,
    hexQuad ('0' :: '0' :: Hex.digit (code / 16) :: Hex.digit (code % 16) :: rest) index =
      .ok (code, rest) := by
  have digits : ∀ code < 0x20,
      Hex.value? ['0', '0', Hex.digit (code / 16), Hex.digit (code % 16)] = some code := by decide
  intro code small rest index
  rw [hexQuad, digits code small]

theorem escapedChar_control (c : Char) (control : c.toNat < 0x20) (rest : List Char)
    (index : Nat) :
    escapedChar ('0' :: '0' :: Hex.digit (c.toNat / 16) :: Hex.digit (c.toNat % 16) :: rest) index =
      .ok (c, rest, index + 4) := by
  have single : isTrailing c.toNat = false ∧ isLeading c.toNat = false := by
    simp [isTrailing, isLeading]
    omega
  rw [escapedChar, hexQuad_control _ control]
  simp [bind, Except.bind, pure, Except.pure, single]

theorem skipString_escape (c : Char) (rest : List Char) (index : Nat) :
    ∃ stop, skipString (escape c ++ rest) index = skipString rest stop := by
  unfold escape
  split
  case h_8 _ quote backslash _ _ _ _ _ =>
    split
    · next control =>
        refine ⟨index + 6, ?_⟩
        simp only [List.cons_append, List.nil_append]
        rw [skipString, hexQuad_control _ control]
    · next visible =>
        refine ⟨index + c.utf8Size, ?_⟩
        have plain : isControl c = false := by simpa [isControl] using visible
        rw [List.singleton_append, skipString]
        · simp [plain]
        all_goals simp_all
  all_goals exact ⟨index + 2, by simp [skipString, namedEscape?]⟩

theorem readString_escape (c : Char) (rest : List Char) (index : Nat) :
    ∃ stop, readString (escape c ++ rest) index = (c :: ·) <$> readString rest stop := by
  unfold escape
  split
  case h_8 _ quote backslash _ _ _ _ _ =>
    split
    · next control =>
        refine ⟨index + 2 + 4, ?_⟩
        simp only [List.cons_append, List.nil_append]
        rw [readString]
        split
        · next broken =>
            rw [escapedChar_control c control] at broken
            cases broken
        · next escaped =>
            rw [escapedChar_control c control] at escaped
            cases escaped
            rfl
    · next visible =>
        refine ⟨index + c.utf8Size, ?_⟩
        have plain : isControl c = false := by simpa [isControl] using visible
        rw [List.singleton_append, readString]
        · simp [plain]
        all_goals simp_all
  all_goals exact ⟨index + 2, by simp [readString, namedEscape?]⟩

/-- What stands behind a string is not looked at for its end. -/
theorem skipString_compact (chars rest : List Char) (index : Nat) :
    ∃ stop, skipString (chars.flatMap escape ++ '"' :: rest) index = .ok (rest, stop) := by
  induction chars generalizing index with
  | nil => exact ⟨index + 1, by simp [skipString]⟩
  | cons c chars ih =>
      obtain ⟨next, first⟩ := skipString_escape c (chars.flatMap escape ++ '"' :: rest) index
      obtain ⟨stop, later⟩ := ih next
      exact ⟨stop, by rw [List.flatMap_cons, List.append_assoc, first, later]⟩

theorem readString_compact (chars rest : List Char) (index : Nat) :
    readString (chars.flatMap escape ++ '"' :: rest) index = .ok chars := by
  induction chars generalizing index with
  | nil => simp [readString]
  | cons c chars ih =>
      obtain ⟨next, first⟩ := readString_escape c (chars.flatMap escape ++ '"' :: rest) index
      rw [List.flatMap_cons, List.append_assoc, first, ih]
      rfl

/-! ## Integers -/

/-- What may stand behind a value: nothing, or one of the marks that end it. -/
def Delimited (rest : List Char) : Prop :=
  ∀ c ∈ rest.head?, c = ',' ∨ c = ']' ∨ c = '\x7d'

theorem isDigit_of_mem_toDigits {value : Nat} {c : Char} (member : c ∈ Nat.toDigits 10 value) :
    isDigit c = true := by
  have digit := Nat.isDigit_of_mem_toDigits (by decide) (by decide) member
  simpa [isDigit, Char.isDigit, Char.le_def] using digit

theorem spanDigits_append {chars rest : List Char} (digits : ∀ c ∈ chars, isDigit c = true)
    (ends : ∀ c ∈ rest.head?, isDigit c = false) :
    spanDigits (chars ++ rest) = (chars.map digitOf, rest) := by
  induction chars with
  | nil =>
      cases rest with
      | nil => rfl
      | cons c rest =>
          have other : isDigit c = false := ends c rfl
          simp [spanDigits, other]
  | cons c chars ih =>
      obtain ⟨first, later⟩ := List.forall_mem_cons.mp digits
      simp [spanDigits, first, ih later]

theorem ofDigits_toDigits (value : Nat) :
    ofDigits ((Nat.toDigits 10 value).map digitOf) = value := by
  have whole : Nat.ofDigitChars 10 (Nat.toDigits 10 value) 0 = value :=
    Nat.ofDigitChars_toDigits (by decide) (by decide)
  rw [ofDigits, List.foldl_map]
  exact whole

theorem exists_toDigits_eq_cons (value : Nat) :
    ∃ head tail, Nat.toDigits 10 value = head :: tail :=
  List.exists_cons_of_ne_nil Nat.toDigits_ne_nil

theorem digitOf_head_toDigits {value : Nat} (positive : value ≠ 0) :
    ∀ c ∈ (Nat.toDigits 10 value).head?, digitOf c ≠ 0 := by
  induction value using Nat.strongRecOn with
  | ind value ih =>
      rw [Nat.toDigits_eq_if (by decide)]
      split
      · next small =>
          have each : ∀ digit < 10, digit ≠ 0 → digitOf (Nat.digitChar digit) ≠ 0 := by decide
          simpa using each value small positive
      · next large =>
          intro c first
          obtain ⟨head, tail, spelled⟩ := exists_toDigits_eq_cons (value / 10)
          refine ih (value / 10) (by omega) (by omega) c ?_
          rw [spelled] at first ⊢
          exact first

theorem wholeDigits_toDigits (value : Nat) {rest : List Char} (ends : Delimited rest)
    (index : Nat) : wholeDigits (Nat.toDigits 10 value ++ rest) index =
      .ok ((Nat.toDigits 10 value).map digitOf, rest) := by
  have behind : ∀ c ∈ rest.head?, isDigit c = false := by
    intro c first
    rcases ends c first with rfl | rfl | rfl <;> rfl
  rw [wholeDigits, spanDigits_append (fun _ => isDigit_of_mem_toDigits) behind]
  split
  · next empty =>
      simp only [Prod.mk.injEq, List.map_eq_nil_iff] at empty
      exact absurd empty.1 Nat.toDigits_ne_nil
  · next leading =>
      simp only [Prod.mk.injEq] at leading
      obtain ⟨zero, -⟩ := leading
      by_cases isZero : value = 0
      · simp [isZero] at zero
      · obtain ⟨c, chars, spelled⟩ := exists_toDigits_eq_cons value
        have first := digitOf_head_toDigits isZero c (by simp [spelled])
        rw [spelled, List.map_cons] at zero
        exact absurd (List.cons.inj zero).1 first
  · rfl

theorem splitMagnitude_toDigits (negative : Bool) (value : Nat) {rest : List Char}
    (ends : Delimited rest) (index : Nat) : ∃ stop,
    splitMagnitude negative (Nat.toDigits 10 value ++ rest) index =
      .ok ⟨⟨negative, (Nat.toDigits 10 value).map digitOf, none, none⟩, rest, stop⟩ := by
  refine ⟨index + ((Nat.toDigits 10 value).map digitOf).length, ?_⟩
  rw [splitMagnitude, wholeDigits_toDigits value ends]
  cases rest with
  | nil => rfl
  | cons c rest => rcases ends c rfl with rfl | rfl | rfl <;> rfl

theorem splitNumeral_compactInt (value : Int) {rest : List Char} (ends : Delimited rest)
    (index : Nat) : ∃ stop, splitNumeral (compactInt value ++ rest) index =
      .ok ⟨⟨decide (value < 0), (Nat.toDigits 10 value.natAbs).map digitOf, none, none⟩, rest,
        stop⟩ := by
  rw [compactInt]
  split
  · next negative =>
      obtain ⟨stop, split⟩ := splitMagnitude_toDigits true value.natAbs ends (index + 1)
      exact ⟨stop, by simpa [splitNumeral, compactNat, negative] using split⟩
  · next natural =>
      obtain ⟨stop, split⟩ := splitMagnitude_toDigits false value.natAbs ends index
      refine ⟨stop, ?_⟩
      obtain ⟨head, tail, spelled⟩ := exists_toDigits_eq_cons value.natAbs
      have digit : isDigit head = true := isDigit_of_mem_toDigits (by rw [spelled]; simp)
      have unsigned : head ≠ '-' := by
        rintro rfl
        cases digit
      simp only [compactNat, natural, decide_false]
      rw [← split, spelled, List.cons_append, splitNumeral]
      simpa using unsigned

/-- An integer that is written in full is read as that integer. -/
theorem reading_compactInt {value : Int} (lower : -0x8000000000000000 ≤ value)
    (upper : value < 0x10000000000000000) (stop : Nat) :
    Numeral.reading ⟨decide (value < 0), (Nat.toDigits 10 value.natAbs).map digitOf, none, none⟩
      stop = .sound (.number (.integer value lower upper)) := by
  have signed : (if value < 0 then -(value.natAbs : Int) else value.natAbs) = value := by omega
  have integer : Numeral.integer? ⟨decide (value < 0),
      (Nat.toDigits 10 value.natAbs).map digitOf, none, none⟩ =
      some (.integer value lower upper) := by
    simp only [Numeral.integer?, ofDigits_toDigits, decide_eq_true_eq, signed]
    rw [dif_pos ⟨⟨lower, upper⟩, by omega⟩]
  simp [Numeral.reading, Numeral.number, integer]

/-! ## Tokens into the builder -/

/-- The builder once it has taken in a text, the first of it at `index`. -/
def Builder.takeIn (builder : Builder) (text : List Char) (index : Nat) : Builder :=
  (tokensFrom text index).foldl Builder.step builder

namespace Builder

variable {builder : Builder} {rest : List Char} {index : Nat}

theorem takeIn_token {c : Char} {text : List Char} {token : Token} {stop : Nat}
    (solid : isGap c = false) (next : nextToken c text index = (token, some (rest, stop))) :
    builder.takeIn (c :: text) index = (builder.step token).takeIn rest stop := by
  rw [takeIn, tokensFrom]
  simp only [solid, Bool.false_eq_true, if_false]
  split
  · next broken =>
      rw [next] at broken
      cases broken
  · next found =>
      rw [next] at found
      cases found
      rfl

theorem solid_of_isDigit {c : Char} (digit : isDigit c = true) : isGap c = false ∧ c ≠ '"' := by
  constructor
  · cases gap : isGap c with
    | false => rfl
    | true =>
        simp only [isGap, Bool.or_eq_true, decide_eq_true_eq] at gap
        rcases gap with ((rfl | rfl) | rfl) | rfl <;> cases digit
  · rintro rfl
    cases digit

theorem takeIn_mark {c : Char} (mark : Mark) (solid : isGap c = false)
    (next : ∀ text, nextToken c text index = (.mark index mark, some (text, index + 1))) :
    builder.takeIn (c :: rest) index = (builder.step (.mark index mark)).takeIn rest (index + 1) :=
  takeIn_token solid (next rest)

theorem takeIn_string (text : String) (rest : List Char) (index : Nat) : ∃ stop,
    ∀ builder : Builder, builder.takeIn (compactString text ++ rest) index =
      (builder.step (.string index stop (.sound text))).takeIn rest stop := by
  obtain ⟨stop, skipped⟩ := skipString_compact text.toList rest (index + 1)
  have read := readString_compact text.toList rest (index + 1)
  refine ⟨stop, fun builder => ?_⟩
  rw [compactString, List.cons_append, List.cons_append, List.append_assoc, List.singleton_append]
  refine takeIn_token rfl ?_
  rw [nextToken, if_pos rfl, skipped, read]
  simp only [String.ofList_toList]

theorem takeIn_integer {value : Int} (lower : -0x8000000000000000 ≤ value)
    (upper : value < 0x10000000000000000) (ends : Delimited rest) (index : Nat) : ∃ stop,
    ∀ builder : Builder, builder.takeIn (compactInt value ++ rest) index =
      (builder.step (.plain index stop
        (.sound (.number (.integer value lower upper))))).takeIn rest stop := by
  obtain ⟨stop, split⟩ := splitNumeral_compactInt value ends index
  refine ⟨stop, fun builder => ?_⟩
  obtain ⟨c, text, spelled, numeral⟩ : ∃ c text, compactInt value = c :: text ∧
      (c = '-' ∨ isDigit c = true) := by
    rw [compactInt]
    obtain ⟨head, tail, spelled⟩ := exists_toDigits_eq_cons value.natAbs
    split
    · exact ⟨_, _, rfl, .inl rfl⟩
    · exact ⟨head, tail, spelled, .inr (isDigit_of_mem_toDigits (by rw [spelled]; simp))⟩
  rw [spelled, List.cons_append] at split ⊢
  have ⟨solid, unquoted⟩ : isGap c = false ∧ c ≠ '"' := by
    rcases numeral with rfl | digit
    · exact ⟨rfl, by decide⟩
    · exact solid_of_isDigit digit
  refine takeIn_token solid ?_
  have starts : (c = '-' || isDigit c) = true := by simpa using numeral
  rw [nextToken, if_neg unquoted, if_pos starts, split]
  simp only [reading_compactInt lower upper]

end Builder

/-! ## Values -/

/-- No doubles, and nested at most so deep. -/
inductive IsPlain : Nat → Json → Prop
  | null {depth : Nat} : IsPlain depth .null
  | bool {depth : Nat} (value : Bool) : IsPlain depth (.bool value)
  | integer {depth : Nat} {value : Int} (lower : -0x8000000000000000 ≤ value)
      (upper : value < 0x10000000000000000) : IsPlain depth (.number (.integer value lower upper))
  | string {depth : Nat} (value : String) : IsPlain depth (.string value)
  | array {depth : Nat} {items : List Json} (each : ∀ item ∈ items, IsPlain depth item) :
      IsPlain (depth + 1) (.array items)
  | object {depth : Nat} {members : List (String × Json)}
      (each : ∀ member ∈ members, IsPlain depth member.2) : IsPlain (depth + 1) (.object members)

theorem IsPlain.mono {depth depth' : Nat} {value : Json} (plain : value.IsPlain depth)
    (deeper : depth ≤ depth') : value.IsPlain depth' := by
  induction plain generalizing depth' with
  | null => exact .null
  | bool value => exact .bool value
  | integer lower upper => exact .integer lower upper
  | string value => exact .string value
  | array _ ih =>
      obtain ⟨depth', rfl⟩ := Nat.exists_eq_add_of_le' (Nat.one_le_of_lt deeper)
      exact .array fun item member => ih item member (Nat.le_of_succ_le_succ deeper)
  | object _ ih =>
      obtain ⟨depth', rfl⟩ := Nat.exists_eq_add_of_le' (Nat.one_le_of_lt deeper)
      exact .object fun entry member => ih entry member (Nat.le_of_succ_le_succ deeper)

namespace Builder

/-- Wherever a value may stand, its text puts a node there that has the value. -/
def Spells (depth : Nat) (value : Json) : Prop :=
  ∀ rest index, Delimited rest → ∃ node stop, node.value depth = .ok value ∧
    (∀ frames, (Builder.value frames).takeIn (compactChars value ++ rest) index =
      (feed node frames).takeIn rest stop) ∧
    ∀ start frames, (firstItem start frames).takeIn (compactChars value ++ rest) index =
      (feed node (.items start [] :: frames)).takeIn rest stop

theorem spells_of_leaf {depth : Nat} {value : Json}
    (leaf : ∀ rest index, Delimited rest → ∃ token start stop,
      (∀ builder : Builder, builder.takeIn (compactChars value ++ rest) index =
        (builder.step token).takeIn rest stop) ∧
      (∀ frames, (Builder.value frames).step token =
        feed (.leaf start stop (.sound value)) frames) ∧
      ∀ first frames, (firstItem first frames).step token =
        feed (.leaf start stop (.sound value)) (.items first [] :: frames)) :
    Spells depth value := by
  intro rest index ends
  obtain ⟨token, start, stop, takes, asValue, asItem⟩ := leaf rest index ends
  refine ⟨.leaf start stop (.sound value), stop, ?_, fun frames => ?_, fun first frames => ?_⟩
  · rw [Node.value]
    rfl
  · rw [takes, asValue]
  · rw [takes, asItem]

theorem spell_append (letters rest : List Char) (index : Nat) :
    spell letters (letters ++ rest) index = .ok rest := by
  induction letters generalizing index with
  | nil => rw [spell.eq_def]; rfl
  | cons letter letters ih => rw [List.cons_append, spell, if_pos rfl, ih]

theorem spells_word {depth : Nat} {c : Char} {letters : List Char} {value : Json}
    (isWord : word? c = some (letters, value)) (written : compactChars value = c :: letters) :
    Spells depth value := by
  refine spells_of_leaf fun rest index _ => ?_
  rw [written, List.cons_append]
  have ⟨solid, unquoted, wordy⟩ : isGap c = false ∧ c ≠ '"' ∧ (c = '-' || isDigit c) = false := by
    unfold word? at isWord
    split at isWord <;> first | exact ⟨rfl, by decide, rfl⟩ | cases isWord
  refine ⟨.plain index (index + 1 + letters.length) (.sound value), index,
    index + 1 + letters.length, fun builder => takeIn_token solid ?_, fun _ => rfl,
    fun _ _ => rfl⟩
  rw [nextToken, if_neg unquoted, wordy]
  simp only [isWord, spell_append, Bool.false_eq_true, if_false]

theorem spells_string (depth : Nat) (text : String) : Spells depth (.string text) := by
  refine spells_of_leaf fun rest index _ => ?_
  obtain ⟨stop, takes⟩ := takeIn_string text rest index
  exact ⟨_, index, stop, takes, fun _ => rfl, fun _ _ => rfl⟩

theorem spells_integer (depth : Nat) {value : Int} (lower : -0x8000000000000000 ≤ value)
    (upper : value < 0x10000000000000000) :
    Spells depth (.number (.integer value lower upper)) := by
  refine spells_of_leaf fun rest index ends => ?_
  obtain ⟨stop, takes⟩ := takeIn_integer lower upper ends index
  exact ⟨_, index, stop, takes, fun _ => rfl, fun _ _ => rfl⟩

/-! ### Arrays -/

def itemsBehind (items : List Json) : List Char :=
  items.flatMap fun item => ',' :: compactChars item

theorem compactItems_cons (item : Json) (items : List Json) :
    compactItems (item :: items) = compactChars item ++ itemsBehind items := by
  induction items generalizing item with
  | nil => simp [compactItems, itemsBehind]
  | cons other items ih =>
      rw [compactItems, ih]
      · rfl
      · rintro ⟨⟩

theorem delimited_itemsBehind (items : List Json) (rest : List Char) :
    Delimited (itemsBehind items ++ ']' :: rest) := by
  cases items <;> simp [Delimited, itemsBehind]

theorem takeIn_itemsBehind {depth : Nat} {items : List Json}
    (each : ∀ item ∈ items, Spells depth item) (rest : List Char) (index : Nat) :
    ∃ nodes stop, nodes.mapM (Node.value depth) = .ok items ∧ ∀ start done frames,
      (afterItem start done frames).takeIn (itemsBehind items ++ ']' :: rest) index =
        (feed (.array start (done.reverse ++ nodes)) frames).takeIn rest stop := by
  induction items generalizing index with
  | nil =>
      refine ⟨[], index + 1, rfl, fun start done frames => ?_⟩
      rw [List.append_nil]
      exact takeIn_mark .closeArray rfl fun _ => rfl
  | cons item items ih =>
      have ⟨first, later⟩ := List.forall_mem_cons.mp each
      obtain ⟨node, stop, read, asValue, -⟩ :=
        first (itemsBehind items ++ ']' :: rest) (index + 1) (delimited_itemsBehind items rest)
      obtain ⟨nodes, last, reads, takes⟩ := ih later stop
      refine ⟨node :: nodes, last, ?_, fun start done frames => ?_⟩
      · rw [List.mapM_cons, read, reads]
        rfl
      · have comma : (afterItem start done frames).takeIn
            (itemsBehind (item :: items) ++ ']' :: rest) index =
            (Builder.value (.items start done :: frames)).takeIn
              (compactChars item ++ (itemsBehind items ++ ']' :: rest)) (index + 1) := by
          rw [itemsBehind, List.flatMap_cons, List.cons_append, List.cons_append,
            List.append_assoc]
          exact takeIn_mark .comma rfl fun _ => rfl
        rw [comma, asValue, feed, takes, List.reverse_cons, List.append_assoc,
          List.singleton_append]

theorem spells_array {depth : Nat} {items : List Json}
    (each : ∀ item ∈ items, Spells depth item) : Spells (depth + 1) (.array items) := by
  intro rest index ends
  have opens (builder : Builder) : builder.takeIn (compactChars (.array items) ++ rest) index =
      (builder.step (.mark index .openArray)).takeIn (compactItems items ++ ']' :: rest)
        (index + 1) := by
    rw [compactChars, List.cons_append, List.cons_append, List.append_assoc]
    exact takeIn_mark .openArray rfl fun _ => rfl
  suffices closes : ∃ nodes stop, nodes.mapM (Node.value depth) = .ok items ∧ ∀ frames,
      (firstItem index frames).takeIn (compactItems items ++ ']' :: rest) (index + 1) =
        (feed (.array index nodes) frames).takeIn rest stop by
    obtain ⟨nodes, stop, read, takes⟩ := closes
    refine ⟨.array index nodes, stop, ?_, fun frames => ?_, fun start frames => ?_⟩
    · rw [Node.value, read]
      rfl
    · rw [opens, ← takes]
      rfl
    · rw [opens, ← takes]
      rfl
  cases items with
  | nil => exact ⟨[], _, rfl, fun frames => takeIn_mark .closeArray rfl fun _ => rfl⟩
  | cons item items =>
      have ⟨first, later⟩ := List.forall_mem_cons.mp each
      obtain ⟨node, stop, read, -, asItem⟩ :=
        first (itemsBehind items ++ ']' :: rest) (index + 1) (delimited_itemsBehind items rest)
      obtain ⟨nodes, last, reads, takes⟩ := takeIn_itemsBehind later rest stop
      refine ⟨node :: nodes, last, ?_, fun frames => ?_⟩
      · rw [List.mapM_cons, read, reads]
        rfl
      · rw [compactItems_cons, List.append_assoc, asItem, feed, takes]
        rfl

/-! ### Objects -/

def compactMember (member : String × Json) : List Char :=
  compactString member.1 ++ ':' :: compactChars member.2

def membersBehind (members : List (String × Json)) : List Char :=
  members.flatMap fun member => ',' :: compactMember member

theorem compactMembers_cons (member : String × Json) (members : List (String × Json)) :
    compactMembers (member :: members) = compactMember member ++ membersBehind members := by
  induction members generalizing member with
  | nil => simp [compactMembers, compactMember, membersBehind]
  | cons other members ih =>
      rw [compactMembers, ih]
      · simp [compactMember, membersBehind]
      · rintro ⟨⟩

theorem delimited_membersBehind (members : List (String × Json)) (rest : List Char) :
    Delimited (membersBehind members ++ '\x7d' :: rest) := by
  cases members <;> simp [Delimited, membersBehind]

def readMember (depth : Nat) (member : Key × Node) : Except Fault (String × Json) := do
  let name ← member.1.name.value
  let value ← member.2.value depth
  return (name, value)

/-- A name, a colon and a value, from where a name may stand. -/
theorem takeIn_compactMember {depth : Nat} {member : String × Json}
    (spells : Spells depth member.2) {rest : List Char} (ends : Delimited rest) (index : Nat) :
    ∃ key node stop, readMember depth (key, node) = .ok member ∧
      (∀ start frames, (firstKey start frames).takeIn (compactMember member ++ rest) index =
        (afterMember start [(key, node)] frames).takeIn rest stop) ∧
      ∀ start done frames, (nextKey start done frames).takeIn (compactMember member ++ rest) index =
        (afterMember start ((key, node) :: done) frames).takeIn rest stop := by
  obtain ⟨name, value⟩ := member
  obtain ⟨middle, named⟩ := takeIn_string name (':' :: (compactChars value ++ rest)) index
  obtain ⟨node, stop, read, asValue, -⟩ := spells rest (middle + 1) ends
  have colon (start : Nat) (done : List (Key × Node)) (frames : List Frame) :
      (Builder.colon start done (.sound name) frames).takeIn (':' :: (compactChars value ++ rest))
        middle = (afterMember start ((⟨.sound name, middle⟩, node) :: done) frames).takeIn rest
          stop := by
    rw [takeIn_mark .colon rfl fun _ => rfl]
    exact asValue (.member start done ⟨.sound name, middle⟩ :: frames)
  refine ⟨⟨.sound name, middle⟩, node, stop, ?_, fun start frames => ?_,
    fun start done frames => ?_⟩
  · rw [readMember, read]
    rfl
  · rw [compactMember, List.append_assoc, List.cons_append, named, ← colon]
    rfl
  · rw [compactMember, List.append_assoc, List.cons_append, named, ← colon]
    rfl

theorem takeIn_membersBehind {depth : Nat} {members : List (String × Json)}
    (each : ∀ member ∈ members, Spells depth member.2) (rest : List Char) (index : Nat) :
    ∃ nodes stop, nodes.mapM (readMember depth) = .ok members ∧ ∀ start done frames,
      (afterMember start done frames).takeIn (membersBehind members ++ '\x7d' :: rest) index =
        (feed (.object start (done.reverse ++ nodes)) frames).takeIn rest stop := by
  induction members generalizing index with
  | nil =>
      refine ⟨[], index + 1, rfl, fun start done frames => ?_⟩
      rw [List.append_nil]
      exact takeIn_mark .closeObject rfl fun _ => rfl
  | cons member members ih =>
      have ⟨first, later⟩ := List.forall_mem_cons.mp each
      obtain ⟨key, node, stop, read, -, asNext⟩ :=
        takeIn_compactMember first (delimited_membersBehind members rest) (index + 1)
      obtain ⟨nodes, last, reads, takes⟩ := ih later stop
      refine ⟨(key, node) :: nodes, last, ?_, fun start done frames => ?_⟩
      · rw [List.mapM_cons, read, reads]
        rfl
      · have comma : (afterMember start done frames).takeIn
            (membersBehind (member :: members) ++ '\x7d' :: rest) index =
            (nextKey start done frames).takeIn
              (compactMember member ++ (membersBehind members ++ '\x7d' :: rest)) (index + 1) := by
          rw [membersBehind, List.flatMap_cons, List.cons_append, List.cons_append,
            List.append_assoc]
          exact takeIn_mark .comma rfl fun _ => rfl
        rw [comma, asNext, takes, List.reverse_cons, List.append_assoc, List.singleton_append]

theorem spells_object {depth : Nat} {members : List (String × Json)}
    (each : ∀ member ∈ members, Spells depth member.2) : Spells (depth + 1) (.object members) := by
  intro rest index ends
  have opens (builder : Builder) : builder.takeIn (compactChars (.object members) ++ rest) index =
      (builder.step (.mark index .openObject)).takeIn (compactMembers members ++ '\x7d' :: rest)
        (index + 1) := by
    rw [compactChars, List.cons_append, List.cons_append, List.append_assoc]
    exact takeIn_mark .openObject rfl fun _ => rfl
  suffices closes : ∃ nodes stop, nodes.mapM (readMember depth) = .ok members ∧ ∀ frames,
      (firstKey index frames).takeIn (compactMembers members ++ '\x7d' :: rest) (index + 1) =
        (feed (.object index nodes) frames).takeIn rest stop by
    obtain ⟨nodes, stop, read, takes⟩ := closes
    refine ⟨.object index nodes, stop, ?_, fun frames => ?_, fun start frames => ?_⟩
    · show Json.object <$> nodes.mapM (readMember depth) = _
      rw [read]
      rfl
    · rw [opens, ← takes]
      rfl
    · rw [opens, ← takes]
      rfl
  cases members with
  | nil => exact ⟨[], _, rfl, fun frames => takeIn_mark .closeObject rfl fun _ => rfl⟩
  | cons member members =>
      have ⟨first, later⟩ := List.forall_mem_cons.mp each
      obtain ⟨key, node, stop, read, asFirst, -⟩ :=
        takeIn_compactMember first (delimited_membersBehind members rest) (index + 1)
      obtain ⟨nodes, last, reads, takes⟩ := takeIn_membersBehind later rest stop
      refine ⟨(key, node) :: nodes, last, ?_, fun frames => ?_⟩
      · rw [List.mapM_cons, read, reads]
        rfl
      · rw [compactMembers_cons, List.append_assoc, asFirst, takes]
        rfl

end Builder

theorem IsPlain.spells {depth : Nat} {value : Json} (plain : value.IsPlain depth) :
    Builder.Spells depth value := by
  induction plain with
  | null => exact Builder.spells_word rfl rfl
  | bool value => cases value <;> exact Builder.spells_word rfl rfl
  | integer lower upper => exact Builder.spells_integer _ lower upper
  | string value => exact Builder.spells_string _ value
  | array _ ih => exact Builder.spells_array ih
  | object _ ih => exact Builder.spells_object ih

/-- The tree of a compact text has the value that was written. -/
theorem Tree.ofText_compact {depth : Nat} {value : Json} (plain : value.IsPlain depth) :
    ∃ node, ofText value.compact = ⟨node, .ok ()⟩ ∧ node.value depth = .ok value := by
  obtain ⟨node, stop, read, takes, -⟩ := plain.spells [] 0 (by simp [Delimited])
  refine ⟨node, ?_, read⟩
  have whole := takes []
  rw [List.append_nil, Builder.takeIn, Builder.takeIn, tokensFrom] at whole
  rw [ofText, ofTokens, compact, String.toList_ofList, whole]
  rfl

theorem parse_compact {value : Json} (plain : value.IsPlain maxDepth) :
    parse value.compact = .ok value := by
  obtain ⟨node, tree, read⟩ := Tree.ofText_compact plain
  rw [parse, tree, Tree.value, read]
  rfl

end BlockScribe.Json
