import BlockScribe.Proofs.Result
import BlockScribe.Proofs.Text.Hex
import BlockScribe.Record.OutputLine

/-!
# Lines of output

What a reader of the output makes of the line of an outcome.  The id never
holds a line break, whichever way it came about, and the payload holds neither
a line break nor a colon and is one of the two marks only if it was meant so.
-/

namespace BlockScribe

/-! ## Ids -/

theorem RecordId.lineFeed_not_mem {id : RecordId} (single : id.isSingleLine) :
    '\n' ∉ id.text.toList := by
  intro member
  simpa using List.all_eq_true.mp single _ member

/-- A record has the id of its members, and that fits a line. -/
theorem Record.id_of_ofMembers {members : SortedMap Json} {record : Record}
    (accepted : ofMembers members = .ok record) :
    record.id.isSingleLine ∧ ∃ value, members.get? "id" = some value ∧
      record.id = .ofJson value := by
  unfold ofMembers at accepted
  cases found : members.get? "id" with
  | none =>
      rw [found] at accepted
      cases accepted
  | some value =>
      cases single : (RecordId.ofJson value).isSingleLine with
      | false =>
          simp only [found, single, Bool.not_false, if_true] at accepted
          cases accepted
      | true =>
          simp only [found, single, Bool.not_true, Bool.false_eq_true, if_false] at accepted
          split at accepted
          · cases accepted
            exact ⟨single, value, rfl, rfl⟩
          · cases accepted
            exact ⟨single, value, rfl, rfl⟩
          · split at accepted
            · cases accepted
              exact ⟨single, value, rfl, rfl⟩
            · cases accepted

theorem recoverId_isSingleLine (line : String) : (recoverId line).isSingleLine := by
  unfold recoverId
  split
  · split
    · simp only
      split
      · assumption
      · rfl
    · rfl
  · rfl

/-! ## Lines -/

theorem splitAtLastColon?_of_not_mem {text : List Char} (none : ':' ∉ text) :
    splitAtLastColon? text = Option.none := by
  induction text with
  | nil => rfl
  | cons c text ih =>
      simp only [List.mem_cons, not_or] at none
      have other : c ≠ ':' := fun same => none.1 same.symm
      simp [splitAtLastColon?, ih none.2, other]

theorem splitAtLastColon?_append (id : List Char) {payload : List Char} (none : ':' ∉ payload) :
    splitAtLastColon? (id ++ ':' :: payload) = some (id, payload) := by
  induction id with
  | nil => simp [splitAtLastColon?, splitAtLastColon?_of_not_mem none]
  | cons c id ih => simp [splitAtLastColon?, ih]

theorem Outcome.payloadText_not_mem (outcome : Outcome) :
    ':' ∉ outcome.payloadText.toList ∧ '\n' ∉ outcome.payloadText.toList := by
  cases outcome with
  | empty id => exact (by decide : ':' ∉ emptyMark.toList ∧ '\n' ∉ emptyMark.toList)
  | failed id failure => exact (by decide : ':' ∉ errorMark.toList ∧ '\n' ∉ errorMark.toList)
  | converted id payload =>
      rw [payloadText, String.toList_ofList]
      constructor
      · intro member
        have digit := Hex.isLowerDigit_of_mem_encode member
        cases digit
      · intro member
        have digit := Hex.isLowerDigit_of_mem_encode member
        cases digit

theorem Outcome.toList_outputLine (outcome : Outcome) :
    outcome.outputLine.toList =
      outcome.id.text.toList ++ ':' :: outcome.payloadText.toList := by
  simp [outputLine]

theorem Outcome.lineFeed_not_mem_outputLine {outcome : Outcome}
    (single : outcome.id.isSingleLine) : '\n' ∉ outcome.outputLine.toList := by
  simp [toList_outputLine, RecordId.lineFeed_not_mem single, outcome.payloadText_not_mem.2]

theorem PayloadText.ofString_encode (payload : List UInt8) :
    ofString (String.ofList (Hex.encode payload)) = .hex (String.ofList (Hex.encode payload)) := by
  have noMark (mark : String) (c : Char) (member : c ∈ mark.toList)
      (notDigit : Hex.isLowerDigit c = false) : String.ofList (Hex.encode payload) ≠ mark := by
    rintro rfl
    rw [String.toList_ofList] at member
    simp [Hex.isLowerDigit_of_mem_encode member] at notDigit
  have notEmpty := noMark Outcome.emptyMark 'E' (by decide) (by decide)
  have notError := noMark Outcome.errorMark 'E' (by decide) (by decide)
  simp [ofString, notEmpty, notError]

inductive Outcome.ReadAs : Outcome → OutputLine → Prop
  | empty {id : RecordId} : ReadAs (.empty id) ⟨id.text, .empty⟩
  | failed {id : RecordId} {failure : Failure} : ReadAs (.failed id failure) ⟨id.text, .error⟩
  | converted {id : RecordId} {payload : List UInt8} {digits : String}
      (nonempty : digits ≠ "") (even : 2 ∣ digits.length)
      (lower : ∀ c ∈ digits.toList, Hex.isLowerDigit c)
      (decoded : Hex.decode? digits.toList = some payload) :
      ReadAs (.converted id payload) ⟨id.text, .hex digits⟩

theorem OutputLine.parse?_outputLine {outcome : Outcome}
    (nonempty : ∀ id payload, outcome = .converted id payload → payload ≠ []) :
    ∃ line, parse? outcome.outputLine = some line ∧ outcome.ReadAs line := by
  have parsed : parse? outcome.outputLine =
      some ⟨outcome.id.text, .ofString outcome.payloadText⟩ := by
    rw [parse?, outcome.toList_outputLine,
      splitAtLastColon?_append _ outcome.payloadText_not_mem.1]
    simp
  refine ⟨_, parsed, ?_⟩
  cases outcome with
  | empty id => exact .empty
  | failed id failure => exact .failed
  | converted id payload =>
      rw [Outcome.payloadText, PayloadText.ofString_encode]
      refine .converted ?_ ?_ ?_ ?_
      · intro none
        have length := congrArg String.length none
        rw [String.length_ofList, Hex.length_encode, String.length_empty] at length
        have positive := List.length_pos_iff.mpr (nonempty id payload rfl)
        omega
      · rw [String.length_ofList, Hex.length_encode]
        exact Nat.dvd_mul_right 2 payload.length
      · intro c member
        rw [String.toList_ofList] at member
        exact Hex.isLowerDigit_of_mem_encode member
      · rw [String.toList_ofList, Hex.decode?_encode]

example : OutputLine.parse? "x:EMPTY:ERROR" = some ⟨"x:EMPTY", .error⟩ := by
  decide

/-! ## Outcomes of lines -/

namespace Settings

variable {settings : Settings} {line : String} {outcome : Outcome}

theorem process_isSome : (settings.process line).isSome = !isBlank line.toList := by
  unfold process
  split
  · next blank => simp [blank]
  · next visible =>
      split <;> simp [visible]

/-- A line that is no record fails, and a record is converted. -/
theorem process_eq_some (processed : settings.process line = some outcome) :
    (∃ record, Record.parse line = .ok record ∧ settings.convert record = outcome) ∨
      ∃ error, Record.parse line = .error error ∧
        outcome = .failed (recoverId line) (.record error) := by
  unfold process at processed
  split at processed
  · cases processed
  · split at processed
    · next record accepted => exact .inl ⟨record, accepted, Option.some_inj.mp processed⟩
    · next error refused => exact .inr ⟨error, refused, (Option.some_inj.mp processed).symm⟩

theorem convert_eq (settings : Settings) (record : Record) :
    (record.description = none ∧ settings.convert record = .empty record.id) ∨
      ∃ description, record.description = some description ∧
        ((∃ payload, settings.encodeDescription description = .ok payload ∧
            settings.convert record = .converted record.id payload) ∨
          ∃ failure, settings.encodeDescription description = .error failure ∧
            settings.convert record = .failed record.id failure) := by
  obtain ⟨id, _ | description⟩ := record
  · exact .inl ⟨rfl, rfl⟩
  · refine .inr ⟨description, rfl, ?_⟩
    cases encoded : settings.encodeDescription description with
    | ok payload => exact .inl ⟨payload, rfl, by simp [convert, encoded]⟩
    | error failure => exact .inr ⟨failure, rfl, by simp [convert, encoded]⟩

theorem id_convert (record : Record) : (settings.convert record).id = record.id := by
  rcases settings.convert_eq record with ⟨-, same⟩ | ⟨_, -, ⟨_, -, same⟩ | ⟨_, -, same⟩⟩ <;>
    rw [same] <;> rfl

theorem isSingleLine_of_process (processed : settings.process line = some outcome) :
    outcome.id.isSingleLine := by
  rcases process_eq_some processed with ⟨record, accepted, rfl⟩ | ⟨error, -, rfl⟩
  · rw [id_convert]
    rw [Record.parse] at accepted
    split at accepted
    · cases accepted
    · exact (Record.id_of_ofMembers accepted).1
    · cases accepted
  · exact recoverId_isSingleLine line

/-- The payload holds the document of the blocks that the line describes. -/
def Encodes (settings : Settings) (line : String) (id : RecordId) (payload : List UInt8) : Prop :=
  ∃ description blocks operations,
    Record.parse line = .ok ⟨id, some description⟩ ∧
    Block.parseList description = .ok blocks ∧
    construct settings.store blocks = .ok operations ∧
    payload = settings.format.save settings.actor operations

theorem encodes_of_process {id : RecordId} {payload : List UInt8}
    (processed : settings.process line = some (.converted id payload)) :
    settings.Encodes line id payload := by
  rcases process_eq_some processed with ⟨record, accepted, converted⟩ | ⟨_, -, same⟩
  · obtain ⟨given, description⟩ := record
    rcases settings.convert_eq ⟨given, description⟩ with
      ⟨-, same⟩ | ⟨description, rfl, ⟨_, encoded, same⟩ | ⟨_, -, same⟩⟩
    · rw [same] at converted
      cases converted
    · rw [same] at converted
      cases converted
      obtain ⟨blocks, parsed, encoded⟩ := bind_eq_ok.mp encoded
      obtain ⟨operations, constructed, encoded⟩ := bind_eq_ok.mp encoded
      cases encoded
      exact ⟨description, blocks, operations, accepted, mapError_eq_ok.mp parsed,
        mapError_eq_ok.mp constructed, rfl⟩
    · rw [same] at converted
      cases converted
  · cases same

end Settings

end BlockScribe
