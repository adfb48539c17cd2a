import BlockScribe.Proofs.Json.Canonical
import BlockScribe.Proofs.Json.Compact
import BlockScribe.Proofs.Record.OutputLine
import BlockScribe.Proofs.Text.Printing

/-!
# The id of a line

A line gives an id if it is an object whose last `id` member fits a line, which
every value does but a text with a line break in it.  Whatever becomes of the
line, and wherever it fails, the outcome has that id; a line that gives none
fails under the unknown one.
-/

namespace BlockScribe

open Json (memberMap)

/-! ## Values as ids -/

theorem RecordId.ofJson_canonical (value : Json) : ofJson value.canonical = ofJson value := by
  cases value with
  | null | bool | number | string => rw [Json.canonical_of_isScalar rfl]
  | array items =>
      have same := Json.canonical_canonical (.array items)
      rw [Json.canonical_array] at same ⊢
      rw [ofJson, ofJson, same, Json.canonical_array]
      all_goals exact nofun
  | object members =>
      have same := Json.canonical_canonical (.object members)
      rw [Json.canonical_object] at same ⊢
      rw [ofJson, ofJson, same, Json.canonical_object]
      all_goals exact nofun

theorem Json.IsPlain.canonical {depth : Nat} {value : Json} (plain : value.IsPlain depth) :
    value.canonical.IsPlain depth := by
  induction plain with
  | null | bool | integer | string =>
      rw [canonical_of_isScalar rfl]
      constructor
  | array each ih =>
      rw [canonical_array]
      refine .array fun item member => ?_
      obtain ⟨given, listed, rfl⟩ := List.mem_map.mp member
      exact ih given listed
  | object each ih =>
      rw [canonical_object]
      refine .object fun ⟨name, value⟩ member => ?_
      obtain ⟨given, listed, rfl⟩ :=
        exists_of_get?_memberMap ((SortedMap.mem_entries_iff _ _).mp member)
      exact ih (name, given) listed

theorem RecordId.isSingleLine_iff (id : RecordId) :
    id.isSingleLine ↔ '\n' ∉ id.text.toList ∧ '\r' ∉ id.text.toList := by
  rw [isSingleLine, List.all_eq_true]
  constructor
  · intro each
    exact ⟨fun member => by simpa using each _ member, fun member => by simpa using each _ member⟩
  · intro ⟨noFeed, noReturn⟩ c member
    have feed : c ≠ '\n' := fun same => noFeed (same ▸ member)
    have carriage : c ≠ '\r' := fun same => noReturn (same ▸ member)
    simp [feed, carriage]

theorem RecordId.isSingleLine_of_controlFree {id : RecordId} (free : ControlFree id.text.toList) :
    id.isSingleLine :=
  id.isSingleLine_iff.mpr ⟨fun member => free _ member (by decide),
    fun member => free _ member (by decide)⟩

/-- Only a text can break a line. -/
theorem RecordId.isSingleLine_ofJson (value : Json) :
    (ofJson value).isSingleLine ↔
      ∀ text, value = .string text → '\n' ∉ text.toList ∧ '\r' ∉ text.toList := by
  have printed (value : Json) : (RecordId.mk value.compact).isSingleLine := by
    apply isSingleLine_of_controlFree
    rw [Json.compact, String.toList_ofList]
    exact Json.controlFree_compactChars value
  cases value with
  | string text => simp [ofJson, isSingleLine_iff]
  | null | bool | number | array | object => simpa [ofJson] using printed _

/-! ## Lines that give an id -/

/-- The line is an object, and the last member by the name of `id` is no text with a line break. -/
inductive GivesId (line : String) : RecordId → Prop
  | last {before behind : List (String × Json)} {value : Json}
      (read : Json.parse line = .ok (.object (before ++ ("id", value) :: behind)))
      (fresh : "id" ∉ behind.map (·.1))
      (single : ∀ text, value = .string text → '\n' ∉ text.toList ∧ '\r' ∉ text.toList) :
      GivesId line (.ofJson value)

/-- What the readers of ids look up is what a line gives. -/
theorem givesId_of_lookup {line : String} {members : List (String × Json)} {value : Json}
    (read : Json.parse line = .ok (.object members))
    (found : (memberMap members).get? "id" = some value)
    (single : (RecordId.ofJson value).isSingleLine) : GivesId line (.ofJson value) := by
  obtain ⟨before, last, behind, rfl, fresh, rfl⟩ := Json.exists_last_of_get?_memberMap found
  rw [RecordId.ofJson_canonical] at single ⊢
  exact .last read fresh ((RecordId.isSingleLine_ofJson last).mp single)

theorem GivesId.recoverId_eq {line : String} {id : RecordId} (gives : GivesId line id) :
    recoverId line = id := by
  cases gives with
  | @last before behind value read fresh single =>
      have fits := (RecordId.isSingleLine_ofJson value).mpr single
      rw [recoverId, read]
      simp only [Json.get?_memberMap_last before "id" value fresh, RecordId.ofJson_canonical, fits,
        if_true]

theorem recoverId_of_not_gives {line : String} (none : ¬∃ id, GivesId line id) :
    recoverId line = .unknown := by
  rw [recoverId]
  split
  · next members read =>
      split
      · next value found =>
          simp only
          split
          · next single => exact absurd ⟨_, givesId_of_lookup read found single⟩ none
          · rfl
      · rfl
  · rfl

theorem givesId_of_parse {line : String} {record : Record}
    (accepted : Record.parse line = .ok record) : GivesId line record.id := by
  rw [Record.parse] at accepted
  split at accepted
  · cases accepted
  · next members read =>
      obtain ⟨single, value, found, same⟩ := Record.id_of_ofMembers accepted
      rw [same] at single ⊢
      exact givesId_of_lookup read found single
  · cases accepted

/--
A line that is not blank has an outcome, and that has the id which would be
recovered from the line if it failed: what the line gives, however it goes on and
whatever else is wrong with it.  A line that gives no id fails as a record and is
told by the unknown one.
-/
theorem Settings.process_id (settings : Settings) {line : String}
    (visible : isBlank line.toList = false) :
    ∃ outcome, settings.process line = some outcome ∧ outcome.id = recoverId line ∧
      (∀ id, GivesId line id → outcome.id = id) ∧
      ((¬∃ id, GivesId line id) →
        ∃ error, outcome = .failed .unknown (.record error)) := by
  have processed : (settings.process line).isSome := by rw [process_isSome, visible]; rfl
  obtain ⟨outcome, processed⟩ := Option.isSome_iff_exists.mp processed
  have recovered : outcome.id = recoverId line := by
    rcases process_eq_some processed with ⟨record, accepted, rfl⟩ | ⟨error, -, rfl⟩
    · rw [id_convert, (givesId_of_parse accepted).recoverId_eq]
    · rfl
  refine ⟨outcome, processed, recovered, fun id gives => recovered.trans gives.recoverId_eq,
    fun none => ?_⟩
  rcases process_eq_some processed with ⟨record, accepted, -⟩ | ⟨error, -, rfl⟩
  · exact absurd ⟨_, givesId_of_parse accepted⟩ none
  · exact ⟨error, by rw [recoverId_of_not_gives none]⟩

/-- The first id has a line break, and the description is no text. -/
def doubledId : Json :=
  .object [("id", .string "a\nb"), ("id", .array [.number (.ofUInt32 7)]),
    ("description", .object [])]

theorem Settings.process_id_doubled :
    isBlank doubledId.compact.toList = false ∧ ∃ outcome,
      Settings.standard.process doubledId.compact = some outcome ∧
        outcome.id = recoverId doubledId.compact ∧ outcome.id = ⟨"[7]"⟩ := by
  have visible : isBlank doubledId.compact.toList = false := by decide +kernel
  have seven : (Json.number (.ofUInt32 7)).IsPlain 125 := .integer _ _
  have read : Json.parse doubledId.compact = .ok doubledId :=
    Json.parse_compact (.object (by simp [Json.IsPlain.string, Json.IsPlain.array, seven,
      Json.IsPlain.object]))
  have gives : GivesId doubledId.compact ⟨"[7]"⟩ :=
    @GivesId.last _ [("id", .string "a\nb")] _ _ read (by decide) nofun
  obtain ⟨outcome, processed, recovered, id, -⟩ := Settings.standard.process_id visible
  exact ⟨visible, outcome, processed, recovered, id _ gives⟩

end BlockScribe
