import BlockScribe.Proofs.Record.Ids

/-!
# Ids that are no texts

A text stands for itself as an id, so it is the only kind of id that can break a
line.  Every other value is written out, and what is written for a value without
doubles is read back as that value: two of them that look alike are one value,
whatever quotes, commas and brackets stand in the texts within.
-/

namespace BlockScribe

namespace Json

/-! ## Values without doubles -/

/-- No number in the value is a double, however deep it is nested. -/
inductive DoubleFree : Json → Prop
  | scalar {value : Json} (isScalar : value.isScalar)
      (exact : ∀ number, value ≠ .number (.double number)) : DoubleFree value
  | array {items : List Json} (each : ∀ item ∈ items, DoubleFree item) :
      DoubleFree (.array items)
  | object {members : List (String × Json)} (each : ∀ member ∈ members, DoubleFree member.2) :
      DoubleFree (.object members)

/-- Values that are each plain at some depth are plain at the greatest of these. -/
theorem exists_common_depth {α : Type} (ofItem : α → Json) {items : List α}
    (each : ∀ item ∈ items, ∃ depth, (ofItem item).IsPlain depth) :
    ∃ depth, ∀ item ∈ items, (ofItem item).IsPlain depth := by
  induction items with
  | nil => exact ⟨0, by simp⟩
  | cons item items ih =>
      obtain ⟨⟨depth, here⟩, later⟩ := List.forall_mem_cons.mp each
      obtain ⟨depth', there⟩ := ih later
      refine ⟨max depth depth', List.forall_mem_cons.mpr ⟨?_, fun item member => ?_⟩⟩
      · exact here.mono (by omega)
      · exact (there item member).mono (by omega)

theorem DoubleFree.exists_isPlain {value : Json} (free : value.DoubleFree) :
    ∃ depth, value.IsPlain depth := by
  induction free with
  | @scalar value isScalar exact =>
      refine ⟨0, ?_⟩
      cases value with
      | null => exact .null
      | bool value => exact .bool value
      | string value => exact .string value
      | number number =>
          cases number with
          | integer value lower upper => exact .integer lower upper
          | double number => exact absurd rfl (exact number)
      | array | object => cases isScalar
  | array _ ih =>
      obtain ⟨depth, each⟩ := exists_common_depth id ih
      exact ⟨depth + 1, .array each⟩
  | object _ ih =>
      obtain ⟨depth, each⟩ := exists_common_depth Prod.snd ih
      exact ⟨depth + 1, .object each⟩

/-! ## One text, one value -/

/-- The text of a value is read at any depth that is enough for it. -/
theorem IsPlain.eq_of_compact {depth depth' : Nat} {value value' : Json}
    (plain : value.IsPlain depth) (plain' : value'.IsPlain depth')
    (same : value.compact = value'.compact) : value = value' := by
  obtain ⟨node, tree, read⟩ := Tree.ofText_compact (plain.mono (Nat.le_max_left depth depth'))
  obtain ⟨node', tree', read'⟩ := Tree.ofText_compact (plain'.mono (Nat.le_max_right depth depth'))
  rw [same, tree', Tree.mk.injEq] at tree
  rw [tree.1, read] at read'
  exact Except.ok.inj read'

theorem compact_canonical_inj {value value' : Json} (free : value.DoubleFree)
    (free' : value'.DoubleFree) :
    value.canonical.compact = value'.canonical.compact ↔ value.canonical = value'.canonical := by
  obtain ⟨depth, plain⟩ := free.exists_isPlain
  obtain ⟨depth', plain'⟩ := free'.exists_isPlain
  exact ⟨plain.canonical.eq_of_compact plain'.canonical, congrArg compact⟩

end Json

/-! ## Lines that are refused for a line break -/

theorem RecordId.ofJson_of_kind {value : Json} (other : value.kind ≠ .string) :
    ofJson value = ⟨value.canonical.compact⟩ := by
  cases value with
  | string => exact absurd rfl other
  | null | bool | number | array | object => rfl

/-- The line is an object, and the last member by the name of `id` is a text with a line break. -/
inductive BreaksId (line : String) : Prop
  | last {before behind : List (String × Json)} {text : String}
      (read : Json.parse line = .ok (.object (before ++ ("id", .string text) :: behind)))
      (fresh : "id" ∉ behind.map (·.1))
      (broken : '\n' ∈ text.toList ∨ '\r' ∈ text.toList)

theorem Record.ofMembers_eq_multilineId {members : SortedMap Json} :
    ofMembers members = .error .multilineId ↔
      ∃ value, members.get? "id" = some value ∧ ¬(RecordId.ofJson value).isSingleLine := by
  rw [ofMembers]
  cases members.get? "id" with
  | none => simp [throw, throwThe, MonadExceptOf.throw]
  | some value =>
      cases single : (RecordId.ofJson value).isSingleLine with
      | false => exact iff_of_true (by simp only [single]; rfl) ⟨value, rfl, by simp [single]⟩
      | true =>
          refine iff_of_false (fun refused => ?_) (by simp [single])
          simp only [single, Bool.not_true, Bool.false_eq_true, if_false] at refused
          split at refused
          · cases refused
          · cases refused
          · split at refused <;> cases refused

theorem RecordId.not_isSingleLine_ofJson (value : Json) :
    ¬(ofJson value).isSingleLine ↔
      ∃ text, value = .string text ∧ ('\n' ∈ text.toList ∨ '\r' ∈ text.toList) := by
  rw [isSingleLine_ofJson]
  grind

theorem Record.parse_eq_multilineId (line : String) :
    parse line = .error .multilineId ↔ BreaksId line := by
  constructor
  · intro refused
    rw [parse] at refused
    split at refused
    · cases refused
    · next members read =>
        obtain ⟨_, found, broken⟩ := ofMembers_eq_multilineId.mp refused
        obtain ⟨before, last, behind, rfl, fresh, rfl⟩ := Json.exists_last_of_get?_memberMap found
        rw [RecordId.ofJson_canonical] at broken
        obtain ⟨text, rfl, breaks⟩ := (RecordId.not_isSingleLine_ofJson last).mp broken
        exact .last read fresh breaks
    · cases refused
  · rintro ⟨read, fresh, broken⟩
    rw [parse, read]
    refine ofMembers_eq_multilineId.mpr ⟨_, Json.get?_memberMap_last _ "id" _ fresh, ?_⟩
    rw [RecordId.ofJson_canonical, RecordId.not_isSingleLine_ofJson]
    exact ⟨_, rfl, broken⟩

/--
An id that is no text has no line break in it, so the lines that are refused for
one are those whose last id is a text with a line break.  Where no doubles are
in them, two such ids are the same just if they were given by the same value.
-/
theorem RecordId.ofJson_composite :
    (∀ value : Json, value.kind ≠ .string →
      '\n' ∉ (ofJson value).text.toList ∧ '\r' ∉ (ofJson value).text.toList) ∧
    (∀ line, Record.parse line = .error .multilineId ↔ BreaksId line) ∧
    ∀ value value' : Json, value.kind ≠ .string → value'.kind ≠ .string →
      value.DoubleFree → value'.DoubleFree →
      (ofJson value = ofJson value' ↔ value.canonical = value'.canonical) := by
  refine ⟨fun value other => ?_, Record.parse_eq_multilineId,
    fun value value' other other' free free' => ?_⟩
  · rw [← isSingleLine_iff, isSingleLine_ofJson]
    rintro text rfl
    exact absurd rfl other
  · rw [ofJson_of_kind other, ofJson_of_kind other', RecordId.mk.injEq]
    exact Json.compact_canonical_inj free free'

/-- A text with quotes and a comma in it does not pass for two. -/
example : RecordId.ofJson (.array [.string "a\",\"b"]) ≠
    RecordId.ofJson (.array [.string "a", .string "b"]) := by decide +kernel

end BlockScribe
