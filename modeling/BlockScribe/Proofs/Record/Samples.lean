import BlockScribe.Proofs.Block.Samples
import BlockScribe.Proofs.Block.Spellings
import BlockScribe.Proofs.Record.SampleLines

/-!
# Sample records from end to end

A sample record is a line of input, whatever its texts hold, and the answer to
it is one line of output under its id.  What is stored there has a block for
each call that the sample was built by, and each character has the marks of the
item that it comes from.
-/

namespace BlockScribe

namespace Sample

/-! ## Descriptions -/

theorem parseList_text (calls : List Call) :
    Block.parseList (text (.array (calls.map Call.json))) = .ok (calls.map Call.made) := by
  have plain : (Json.array (calls.map Call.json)).IsPlain Json.maxDepth :=
    .mono (.array (by simpa using fun call _ => call.isPlain_json)) (by decide)
  have unrepeated : (Json.array (calls.map Call.json)).Unrepeated :=
    .array (by simpa using fun call _ => call.unrepeated_json)
  apply Block.parseList_compact plain.canonical
  rw [Block.listOfJson?_respects _ _ unrepeated]
  exact Call.listOfJson?_json 125 calls

/-- What becomes of the blocks that a record was built for. -/
def outcome (settings : Settings) (id : RecordId) (calls : List Call) : Outcome :=
  match construct settings.store (calls.map Call.made) with
  | .ok operations => .converted id (settings.format.save settings.actor operations)
  | .error error => .failed id (.schema error)

theorem convert_record (settings : Settings) (id : Json) (calls : List Call) :
    settings.convert (Entry.record ⟨id, some (.array (calls.map Call.json))⟩) =
      outcome settings (.ofJson id) calls := by
  have encoded : settings.encodeDescription (text (.array (calls.map Call.json))) = (do
      let operations ← (construct settings.store (calls.map Call.made)).mapError .schema
      return settings.format.save settings.actor operations) := by
    rw [Settings.encodeDescription, parseList_text]
    rfl
  simp only [Settings.convert, Entry.record, Option.map_some, encoded]
  rw [outcome]
  cases construct settings.store (calls.map Call.made) <;> rfl

/-! ## Runs -/

theorem run_recordLine (settings : Settings) {id : Json} (plain : id.IsPlain 126)
    (single : (RecordId.ofJson id).isSingleLine) (calls : List Call) {input : List UInt8}
    (fed : input = utf8 (recordLine id (.array (calls.map Call.json))) ∨
      input = utf8 (recordLine id (.array (calls.map Call.json))) ++ [lineFeed]) :
    let transcript := settings.run .none input
    let outcome := outcome settings (.ofJson id) calls
    streamLines transcript.outputText = [outcome.outputLine] ∧
      transcript.diagnostics = outcome.diagnostic?.toList := by
  let entry : Entry := ⟨id, some (.array (calls.map Call.json))⟩
  have line : recordLine id (.array (calls.map Call.json)) = entry.line := rfl
  rw [line] at fed
  have lines := lines_entries [entry] (joined_singleton fed)
  have outcomes : settings.outcomes ([entry].map Entry.line) =
      [outcome settings (.ofJson id) calls] := by
    rw [outcomes_entries settings (by simpa using plain) (by simpa using single),
      List.map_singleton, convert_record]
  refine ⟨?_, ?_⟩
  · rw [settings.streamLines_outputText, lines, outcomes, List.map_singleton]
  · rw [settings.run_none, lines, Run.after, outcomes]
    cases told : (outcome settings (.ofJson id) calls).diagnostic? <;> simp [told]

/--
The line of a sample record gets one line of output, under its id.  It holds a
document with the block of every call, or an error if the level of some heading
is none.
-/
theorem run_recordLine_shown (settings : Settings) {id : Json} (plain : id.IsPlain 126)
    (single : (RecordId.ofJson id).isSingleLine) (calls : List Call) {input : List UInt8}
    (fed : input = utf8 (recordLine id (.array (calls.map Call.json))) ∨
      input = utf8 (recordLine id (.array (calls.map Call.json))) ++ [lineFeed]) :
    let transcript := settings.run .none input
    ∃ line payload, streamLines transcript.outputText = [line] ∧
      OutputLine.parse? line = some ⟨(RecordId.ofJson id).text, payload⟩ ∧
      ((∀ call ∈ calls, call.IsValid) → transcript.diagnostics = [] ∧
        ∃ digits bytes operations views, payload = .hex digits ∧
          Hex.decode? digits.toList = some bytes ∧
          settings.format.load? bytes = some (settings.actor, operations) ∧
          readBlocks? operations settings.store = some views ∧
          List.Forall₂ Call.Shown calls views) ∧
      ((∃ call ∈ calls, ¬call.IsValid) → payload = .error) := by
  intro transcript
  obtain ⟨written, told⟩ := run_recordLine settings plain single calls fed
  have accepts := Call.construct_made settings.store calls
  rw [outcome] at written told
  cases constructed : construct settings.store (calls.map Call.made) with
  | ok operations =>
      rw [constructed] at written told
      have nonempty (other : RecordId) (payload : List UInt8)
          (same : Outcome.converted (.ofJson id) (settings.format.save settings.actor operations) =
            .converted other payload) : payload ≠ [] := by
        cases same
        exact settings.format.save_ne_nil settings.actor operations
      obtain ⟨_, parsed, readAs⟩ := OutputLine.parse?_outputLine nonempty
      cases readAs with
      | @converted _ _ digits _ _ _ decoded =>
          obtain ⟨views, read, shown⟩ := Call.shown_of_construct constructed
          refine ⟨_, _, written, parsed, fun _ => ⟨told, ?_⟩, ?_⟩
          · exact ⟨digits, _, operations, views, rfl, decoded,
              settings.format.load?_save_of_construct settings.actor constructed, read, shown⟩
          · rintro ⟨call, listed, invalid⟩
            exact absurd (accepts.mp ⟨operations, constructed⟩ call listed) invalid
  | error error =>
      rw [constructed] at written told
      have nonempty (other : RecordId) (payload : List UInt8)
          (same : Outcome.failed (.ofJson id) (.schema error) = .converted other payload) :
          payload ≠ [] := nomatch same
      obtain ⟨_, parsed, readAs⟩ := OutputLine.parse?_outputLine nonempty
      cases readAs
      refine ⟨_, _, written, parsed, fun valid => ?_, fun _ => rfl⟩
      obtain ⟨operations, done⟩ := accepts.mpr valid
      rw [constructed] at done
      cases done

def sampleSheet : Sheet where
  members := .ofList [("bold", .bool true), ("textColor", .string "red")]
  known name value there := by
    have member := SortedMap.mem_of_get?_ofList there
    simp only [List.mem_cons, List.not_mem_nil, or_false, Prod.mk.injEq] at member
    rcases member with ⟨rfl, rfl⟩ | ⟨rfl, rfl⟩
    · exact .flag (by decide) true
    · exact .color (by decide) "red"

def sampleCalls : List Call :=
  [.heading 2 "Tea & \"cake\"",
    .block .quote rfl [.text "one\ntwo ", .styled "\u0007three" sampleSheet,
      .link "https://example.org" "𝄞"]]

theorem run_recordLine_shown_sample :
    let input := utf8 (recordLine (.string "r1") (.array (sampleCalls.map Call.json))) ++ [lineFeed]
    let transcript := Settings.standard.run .none input
    ∃ line digits bytes operations views, streamLines transcript.outputText = [line] ∧
      transcript.diagnostics = [] ∧ OutputLine.parse? line = some ⟨"r1", .hex digits⟩ ∧
      Hex.decode? digits.toList = some bytes ∧
      Payload.decode? bytes = some (Settings.standard.actor, operations) ∧
      readBlocks? operations Settings.standard.store = some views ∧
      List.Forall₂ Call.Shown sampleCalls views := by
  intro input transcript
  have valid : ∀ call ∈ sampleCalls, call.IsValid := by
    simp [sampleCalls, Call.IsValid]
  obtain ⟨line, _, written, parsed, shows, -⟩ := run_recordLine_shown .standard (.string "r1")
    (by decide) sampleCalls (.inr rfl)
  obtain ⟨silent, digits, bytes, operations, views, rfl, rest⟩ := shows valid
  exact ⟨line, digits, bytes, operations, views, written, silent, parsed, rest⟩

end Sample

end BlockScribe
