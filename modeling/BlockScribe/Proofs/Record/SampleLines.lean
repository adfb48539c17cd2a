import BlockScribe.Proofs.Record.Ids
import BlockScribe.Proofs.Stream.Run
import BlockScribe.Record.Sample

/-!
# Lines of sample records

The line that is written for a sample record is read as that record, and lines
put together are told apart again.  A description says what its blocks are in
JSON that stands as a text within JSON, so it is never empty, whatever the
blocks are; an id comes back under the name that it has in the output.
-/

namespace BlockScribe

open Json (memberMap)

theorem Settings.isEmpty_convert (settings : Settings) (record : Record) :
    (settings.convert record).isEmpty = record.description.isNone := by
  rcases settings.convert_eq record with
    ⟨none, same⟩ | ⟨_, described, ⟨_, -, same⟩ | ⟨_, -, same⟩⟩
  · rw [same, none]
    rfl
  · rw [same, described]
    rfl
  · rw [same, described]
    rfl

namespace Sample

/-- What a line is written for: an id, and blocks unless there are none to convert. -/
structure Entry where
  id : Json
  blocks : Option Json

namespace Entry

variable {entry : Entry}

def line (entry : Entry) : String :=
  match entry.blocks with
  | some blocks => recordLine entry.id blocks
  | none => emptyRecordLine entry.id

def record (entry : Entry) : Record :=
  ⟨.ofJson entry.id, entry.blocks.map text⟩

def description (entry : Entry) : Json :=
  match entry.blocks with
  | some blocks => .string (text blocks)
  | none => .null

def members (entry : Entry) : List (String × Json) :=
  [("id", entry.id), ("description", entry.description)]

theorem line_eq (entry : Entry) : entry.line = text (.object entry.members) := by
  rw [line, members, description]
  cases entry.blocks <;> rfl

theorem toList_line (entry : Entry) : ∃ inner, ControlFree inner ∧
    entry.line.toList = '\x7b' :: inner ++ ['\x7d'] := by
  rw [line_eq, text, Json.canonical_object, Json.compact, String.toList_ofList, Json.compactChars]
  exact ⟨_, Json.controlFree_compactMembers _, rfl⟩

theorem controlFree_line (entry : Entry) : ControlFree entry.line.toList := by
  obtain ⟨inner, free, line⟩ := entry.toList_line
  rw [line]
  exact .append (.cons (by decide) free) (by decide)

theorem isBlank_line (entry : Entry) : isBlank entry.line.toList = false := by
  obtain ⟨inner, -, line⟩ := entry.toList_line
  rw [line]
  rfl

theorem isLine_line (entry : Entry) : IsLine entry.line := by
  obtain ⟨inner, -, line⟩ := entry.toList_line
  refine ⟨?_, entry.controlFree_line.lineFeed_not_mem, ?_⟩
  · intro empty
    rw [empty] at line
    cases line
  · simp [line, trimLineEnd, isLineEnd]

/-! ## Reading one line -/

theorem isPlain_members (plain : entry.id.IsPlain 126) :
    (Json.object entry.members).IsPlain Json.maxDepth := by
  have described : entry.description.IsPlain 126 := by
    rw [description]
    cases entry.blocks with
    | none => exact .null
    | some blocks => exact .string _
  exact .object (by simp [members, plain, described])

theorem canonical_description (entry : Entry) :
    entry.description.canonical = entry.description := by
  apply Json.canonical_of_isScalar
  rw [description]
  cases entry.blocks <;> rfl

theorem ofMembers_members (single : (RecordId.ofJson entry.id).isSingleLine) :
    Record.ofMembers (memberMap entry.members) = .ok entry.record := by
  have distinct : (entry.members.map fun member => member.1).Nodup := by simp [members]
  have idThere : (memberMap entry.members).get? "id" = some entry.id.canonical :=
    Json.get?_memberMap distinct "id"
  have described : (memberMap entry.members).get? "description" = some entry.description := by
    rw [Json.get?_memberMap distinct, ← canonical_description]
    rfl
  simp only [Record.ofMembers, idThere, described, RecordId.ofJson_canonical, single]
  rw [description, record]
  cases entry.blocks with
  | none => rfl
  | some blocks =>
      have full : (text blocks).isEmpty = false := Json.isEmpty_compact _
      simp only [full]
      rfl

theorem parse_line (plain : entry.id.IsPlain 126)
    (single : (RecordId.ofJson entry.id).isSingleLine) :
    Record.parse entry.line = .ok entry.record := by
  have read := Json.parse_compact (isPlain_members plain).canonical
  rw [Json.canonical_object] at read
  rw [Record.parse, line_eq, text, Json.canonical_object, read]
  -- The line has the members in the order of their names, and looking one up does not mind.
  show Record.ofMembers (memberMap (memberMap entry.members).entries) = .ok entry.record
  rw [Json.memberMap_canonical, ofMembers_members single]

theorem process_line (settings : Settings) (plain : entry.id.IsPlain 126)
    (single : (RecordId.ofJson entry.id).isSingleLine) :
    settings.process entry.line = some (settings.convert entry.record) := by
  rw [Settings.process, isBlank_line, parse_line plain single]
  rfl

end Entry

/-! ## Runs -/

theorem lines_entries (entries : List Entry) {input : List UInt8}
    (fed : input = utf8 ("\n".intercalate (entries.map Entry.line)) ∨
      input = utf8 (streamText (entries.map Entry.line))) :
    (Run.lines .none input).map lineText = entries.map Entry.line := by
  refine lines_utf8_joined (fun line member => ?_) fed
  obtain ⟨entry, -, rfl⟩ := List.mem_map.mp member
  exact entry.isLine_line

section

variable (settings : Settings) {entries : List Entry}
  (plain : ∀ entry ∈ entries, entry.id.IsPlain 126)
  (single : ∀ entry ∈ entries, (RecordId.ofJson entry.id).isSingleLine)

include plain single

theorem outcomes_entries : settings.outcomes (entries.map Entry.line) =
    entries.map fun entry => settings.convert entry.record := by
  rw [Settings.outcomes, List.filterMap_map, ← List.filterMap_eq_map']
  exact List.filterMap_congr fun entry member =>
    Entry.process_line settings (plain entry member) (single entry member)

theorem blanks_entries : settings.blanks (entries.map Entry.line) = 0 := by
  have counted := settings.length_outcomes_add_blanks (entries.map Entry.line)
  rw [outcomes_entries settings plain single, List.length_map, List.length_map] at counted
  omega

end

/-- Only the lines that were written for no blocks come to nothing. -/
theorem countP_isEmpty (settings : Settings) (entries : List Entry) :
    (entries.map fun entry => settings.convert entry.record).countP (·.isEmpty) =
      entries.countP (·.blocks.isNone) := by
  rw [List.countP_map]
  refine List.countP_congr fun entry _ => ?_
  rw [Function.comp_apply, settings.isEmpty_convert, Entry.record, Option.isNone_map]

/--
Each line of a sample record is no blank one, has no line break in it and is read
as the record that it was written for.  A run takes such lines apart however they
were put together: it answers record by record, in their order, skips nothing and
finds nothing to convert just where there were no blocks.
-/
theorem run_entries (settings : Settings) {entries : List Entry}
    (plain : ∀ entry ∈ entries, entry.id.IsPlain 126)
    (single : ∀ entry ∈ entries, (RecordId.ofJson entry.id).isSingleLine) {input : List UInt8}
    (fed : input = utf8 ("\n".intercalate (entries.map Entry.line)) ∨
      input = utf8 (streamText (entries.map Entry.line))) :
    let transcript := settings.run .none input
    (∀ entry ∈ entries, Record.parse entry.line = .ok entry.record ∧
      '\n' ∉ entry.line.toList ∧ '\r' ∉ entry.line.toList ∧ isBlank entry.line.toList = false) ∧
      (Run.lines .none input).map lineText = entries.map Entry.line ∧
      streamLines transcript.outputText =
        (entries.map fun entry => settings.convert entry.record).map (·.outputLine) ∧
      transcript.diagnostics =
        (entries.map fun entry => settings.convert entry.record).filterMap (·.diagnostic?) ∧
      ∃ summary, transcript.result = .ok summary ∧ summary.skipped = 0 ∧
        summary.empty = entries.countP (·.blocks.isNone) := by
  have lines := lines_entries entries fed
  have outcomes := outcomes_entries settings plain single
  refine ⟨fun entry member => ⟨Entry.parse_line (plain entry member) (single entry member), ?_⟩,
    lines, ?_, ?_⟩
  · have free := entry.controlFree_line
    exact ⟨free.lineFeed_not_mem, fun carriage => free _ carriage (by decide), entry.isBlank_line⟩
  · rw [settings.streamLines_outputText, lines, outcomes]
  · rw [settings.run_none, lines]
    refine ⟨by rw [Run.after, outcomes], _, rfl, ?_, ?_⟩
    · rw [blanks_entries settings plain single]
      rfl
    · rw [outcomes, countP_isEmpty]
      exact Nat.zero_add _

def sampleEntries : List Entry :=
  [⟨.array [.string "a\nb", .number (.integer (-0x8000000000000000) (by decide) (by decide))],
      some (.bool false)⟩,
    ⟨.string "\"𝄞\" \\", none⟩]

theorem run_entries_sample :
    let input := utf8 ("\n".intercalate (sampleEntries.map Entry.line))
    (Run.lines .none input).map lineText = sampleEntries.map Entry.line ∧
      streamLines (Settings.standard.run .none input).outputText =
        ["[\"a\\nb\",-9223372036854775808]:ERROR", "\"𝄞\" \\:EMPTY"] := by
  intro input
  have plain : ∀ entry ∈ sampleEntries, entry.id.IsPlain 126 := by
    have least : (Json.number (.integer (-0x8000000000000000) (by decide) (by decide))).IsPlain
        125 := .integer _ _
    simp [sampleEntries, Json.IsPlain.string, Json.IsPlain.array, least]
  have single : ∀ entry ∈ sampleEntries, (RecordId.ofJson entry.id).isSingleLine := by
    decide +kernel
  have answers : (sampleEntries.map fun entry => Settings.standard.convert entry.record).map
      (·.outputLine) = ["[\"a\\nb\",-9223372036854775808]:ERROR", "\"𝄞\" \\:EMPTY"] := by
    decide +kernel
  obtain ⟨-, lines, written, -⟩ := run_entries Settings.standard plain single (.inl rfl)
  exact ⟨lines, written.trans answers⟩

end Sample

end BlockScribe
