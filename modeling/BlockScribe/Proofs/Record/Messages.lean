import BlockScribe.Proofs.Block.Faults
import BlockScribe.Proofs.Record.OutputLine
import BlockScribe.Proofs.Text.Printing

/-!
# Messages of failures

What a message takes over from the input.  Values and characters of a text are
quoted so that no control shows; the types and props that the schema refuses
are named just as they are written.  So a message has the line feeds of the
name in it and no others.
-/

namespace BlockScribe

/-! ## Faults -/

namespace Json

theorem controlFree_number (number : Number) :
    ControlFree (Json.number number).compact.toList := by
  rw [compact, String.toList_ofList, compactChars]
  exact controlFree_compactNumber number

theorem Found.controlFree_phrase (found : Found) : ControlFree found.phrase.toList := by
  cases found with
  | null | sequence | map => decide
  | boolean value => cases value <;> decide
  | string value => exact .toList_append (by decide) (controlFree_quotedText value)
  | number value =>
      cases value with
      | integer | double =>
          exact .toList_append (.toList_append (by decide) (controlFree_number _)) (by decide)

theorem Expected.controlFree_phrase (expected : Expected) :
    ControlFree expected.phrase.toList := by
  cases expected <;> decide

theorem Cause.controlFree_message {cause : Cause} (names : Block.NamesFields cause) :
    ControlFree cause.message.toList := by
  cases cause with
  | wrongShape found expected =>
      exact .toList_append (.toList_append (.toList_append (by decide) found.controlFree_phrase)
        (by decide)) expected.controlFree_phrase
  | repeatedField name =>
      have each : ∀ name ∈ Block.fieldNames, ControlFree name.toList := by decide
      exact .toList_append (.toList_append (by decide) (each name (names name rfl))) (by decide)
  | _ => decide

theorem ReadError.controlFree_message {error : ReadError}
    (names : Block.NamesFields error.cause) : ControlFree error.message.toList :=
  .toList_append (.toList_append (.toList_append (.toList_append
    (Cause.controlFree_message names) (by decide)) (controlFree_toString _)) (by decide))
    (controlFree_toString _)

theorem Kind.controlFree_phrase (kind : Kind) : ControlFree kind.phrase.toList := by
  cases kind <;> decide

end Json

/-! ## Records -/

/-- What is wrong with the text of a line or of a block list is a fault of such a text. -/
def RecordError.NamesFields : RecordError → Prop
  | .invalidJson error | .invalidBlockList error => Block.NamesFields error.cause
  | _ => True

theorem RecordError.controlFree_message {error : RecordError} (names : error.NamesFields) :
    ControlFree error.message.toList := by
  cases error with
  | invalidJson | invalidBlockList =>
      exact .toList_append (by decide) (Json.ReadError.controlFree_message names)
  | notAnObject found | descriptionNotString found =>
      exact .toList_append (by decide) found.controlFree_phrase
  | missingId | multilineId => decide

theorem Record.parse_namesFields (line : String) :
    FailsOnly RecordError.NamesFields (Record.parse line) := by
  have members (members : SortedMap Json) :
      FailsOnly RecordError.NamesFields (ofMembers members) := by
    unfold ofMembers
    split
    · dsimp only
      split
      · exact .of_error trivial
      · split
        · exact .of_ok _
        · exact .of_ok _
        · split
          · exact .of_ok _
          · exact .of_error trivial
    · exact .of_error trivial
  unfold parse
  split
  · next broken =>
      exact .of_error (Block.namesFields_of_syntactic (Json.parse_syntactic line _ broken))
  · exact members _
  · exact .of_error trivial

/-! ## Failures -/

def Failure.NamesFields : Failure → Prop
  | .record error => error.NamesFields
  | .schema _ => True

theorem Settings.encodeDescription_namesFields (settings : Settings) (description : String) :
    FailsOnly Failure.NamesFields (settings.encodeDescription description) := by
  have parsed : FailsOnly Failure.NamesFields
      ((Block.parseList description).mapError (.record ∘ .invalidBlockList)) :=
    (Block.parseList_namesFields description).mapError fun _ names => names
  refine parsed.bind fun blocks _ => ?_
  have schema : FailsOnly (fun _ => True) (construct settings.store blocks) :=
    fun _ _ => trivial
  exact (schema.mapError fun _ _ => trivial).bind fun _ _ => .of_ok _

theorem Settings.namesFields_of_process {settings : Settings} {line : String} {id : RecordId}
    {failure : Failure} (processed : settings.process line = some (.failed id failure)) :
    failure.NamesFields := by
  rcases process_eq_some processed with ⟨record, -, converted⟩ | ⟨error, refused, same⟩
  · rcases settings.convert_eq record with
      ⟨-, same⟩ | ⟨description, -, ⟨_, -, same⟩ | ⟨_, refused, same⟩⟩
    · rw [same] at converted
      cases converted
    · rw [same] at converted
      cases converted
    · rw [same] at converted
      cases converted
      exact settings.encodeDescription_namesFields description _ refused
  · cases same
    exact Record.parse_namesFields line _ refused

/-- The name that a message takes over as it is written. -/
def Failure.namedAsWritten : Failure → String
  | .schema (.unknownType name) => name
  | .schema (.invalidProp _ prop _) => prop
  | _ => ""

theorem PropOwner.controlFree_name (owner : PropOwner) : ControlFree owner.name.toList := by
  cases owner with
  | block type => cases type <;> decide
  | cell => decide

theorem PropRule.controlFree_reason (rule : PropRule) : ControlFree rule.reason.toList := by
  cases rule <;> decide

/-- Whatever stands around a name in a message, it has no control characters. -/
theorem Failure.message_around {failure : Failure} (names : failure.NamesFields) :
    ∃ before behind : List Char, ControlFree before ∧ ControlFree behind ∧
      failure.message.toList = before ++ failure.namedAsWritten.toList ++ behind := by
  have plain (free : ControlFree failure.message.toList) (none : failure.namedAsWritten = "") :
      ∃ before behind : List Char, ControlFree before ∧ ControlFree behind ∧
        failure.message.toList = before ++ failure.namedAsWritten.toList ++ behind :=
    ⟨_, [], free, .nil, by simp [none]⟩
  have typeName (type : BlockType) : ControlFree type.name.toList :=
    PropOwner.controlFree_name (.block type)
  cases failure with
  | record error => exact plain (RecordError.controlFree_message names) rfl
  | schema error =>
      cases error with
      | malformedContent type | unexpectedInline type | unexpectedTable type =>
          refine plain ?_ rfl
          exact .toList_append (.toList_append (by decide) (typeName type)) (by decide)
      | unknownType name =>
          refine ⟨"unknown block type '".toList, "'".toList, by decide, by decide, ?_⟩
          change ("unknown block type '" ++ name ++ "'").toList = _
          rw [String.toList_append, String.toList_append]
          rfl
      | invalidProp owner prop rule =>
          refine ⟨"invalid '".toList, ("' prop on '" ++ owner.name ++ "' block: ").toList ++
            rule.reason.toList, by decide, ?_, ?_⟩
          · exact .append (.toList_append (.toList_append (by decide) owner.controlFree_name)
              (by decide)) rule.controlFree_reason
          · change ("invalid '" ++ prop ++ "' prop on '" ++ owner.name ++ "' block: " ++
              rule.reason).toList = _ ++ prop.toList ++ _
            simp only [String.toList_append, List.append_assoc]

end BlockScribe
