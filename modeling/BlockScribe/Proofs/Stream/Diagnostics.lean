import BlockScribe.Proofs.Record.Messages
import BlockScribe.Proofs.Stream.Run

/-!
# The lines of the diagnostics

A diagnostic is one message for each record that failed.  It is one line as
well, unless the failure names a type or a prop with line feeds in it: each of
those begins another line, and what that line says is up to the input.
-/

namespace BlockScribe

/-! ## Lines of a message -/

/-- The lines that a message takes up in a stream, which puts a line feed behind it. -/
def messageLines (message : String) : List String :=
  (message.toList.foldr consLine [[]]).map String.ofList

theorem foldr_consLine_ne_nil (message : List Char) : message.foldr consLine [[]] ≠ [] := by
  cases message with
  | nil => exact List.cons_ne_nil _ _
  | cons c message =>
      rw [List.foldr_cons, consLine]
      split <;> exact List.cons_ne_nil _ _

theorem consLine_append (c : Char) {lines : List (List Char)} (nonempty : lines ≠ [])
    (more : List (List Char)) : consLine c (lines ++ more) = consLine c lines ++ more := by
  cases lines with
  | nil => exact absurd rfl nonempty
  | cons line lines =>
      rw [consLine, consLine]
      split <;> rfl

theorem foldr_consLine_split (message rest : List Char) :
    (message ++ '\n' :: rest).foldr consLine [] =
      message.foldr consLine [[]] ++ rest.foldr consLine [] := by
  induction message with
  | nil => rfl
  | cons c message ih =>
      rw [List.cons_append, List.foldr_cons, ih,
        consLine_append c (foldr_consLine_ne_nil message), List.foldr_cons]

theorem streamLines_eq_flatMap (messages : List String) :
    streamLines (streamText messages) = messages.flatMap messageLines := by
  simp only [streamLines, streamText, String.toList_ofList]
  induction messages with
  | nil => rfl
  | cons message messages ih =>
      rw [List.flatMap_cons, List.append_assoc, List.singleton_append, foldr_consLine_split,
        List.map_append, ih, List.flatMap_cons, messageLines]

theorem length_messageLines (message : String) :
    (messageLines message).length = message.toList.count '\n' + 1 := by
  rw [messageLines, List.length_map]
  induction message.toList with
  | nil => rfl
  | cons c chars ih =>
      have positive := List.length_pos_iff.mpr (foldr_consLine_ne_nil chars)
      rw [List.foldr_cons, consLine]
      by_cases same : c = '\n'
      · rw [if_pos same, List.length_cons, ih, same, List.count_cons_self]
      · rw [if_neg same, List.length_cons, List.length_tail, List.count_cons_of_ne same, ih]
        rfl

/-- Text without line feeds at the head of a message is at the head of its first line. -/
theorem messageLines_append {opening : String} (single : '\n' ∉ opening.toList) (rest : String) :
    ∃ line lines, messageLines (opening ++ rest) = line :: lines ∧
      opening.toList <+: line.toList := by
  have each (chars : List Char) (single : '\n' ∉ chars) (line : List Char)
      (lines : List (List Char)) :
      chars.foldr consLine (line :: lines) = (chars ++ line) :: lines := by
    induction chars with
    | nil => rfl
    | cons c chars ih =>
        simp only [List.mem_cons, not_or] at single
        have other : c ≠ '\n' := fun same => single.1 same.symm
        rw [List.foldr_cons, ih single.2, consLine, if_neg other]
        rfl
  obtain ⟨line, lines, later⟩ := List.exists_cons_of_ne_nil (foldr_consLine_ne_nil rest.toList)
  refine ⟨String.ofList (opening.toList ++ line), lines.map String.ofList, ?_, by simp⟩
  rw [messageLines, String.toList_append, List.foldr_append, later, each _ single, List.map_cons]

/-! ## Reports -/

def Outcome.report? : Outcome → Option (RecordId × Failure)
  | .failed id failure => some (id, failure)
  | _ => none

/-- A line that begins as the diagnostic of a record does. -/
def OpensReport (report : RecordId × Failure) (line : String) : Prop :=
  ("Error on story " ++ report.1.text ++ ": ").toList <+: line.toList

/-- The lines of a report: the one that opens it, and one more for each line feed named in it. -/
structure ReportLines (report : RecordId × Failure) (lines : List String) : Prop where
  opens : ∃ line ∈ lines.head?, OpensReport report line
  length : lines.length = report.2.namedAsWritten.toList.count '\n' + 1

theorem reportLines_messageLines {report : RecordId × Failure} (single : report.1.isSingleLine)
    (names : report.2.NamesFields) :
    ReportLines report
      (messageLines ("Error on story " ++ report.1.text ++ ": " ++ report.2.message)) := by
  have openingClean : '\n' ∉ ("Error on story " ++ report.1.text ++ ": ").toList := by
    simp [RecordId.lineFeed_not_mem single]
  obtain ⟨before, behind, beforeFree, behindFree, message⟩ := report.2.message_around names
  constructor
  · obtain ⟨line, lines, cut, opens⟩ := messageLines_append openingClean report.2.message
    exact ⟨line, by rw [cut, List.head?_cons]; rfl, opens⟩
  · rw [length_messageLines, String.toList_append, List.count_append,
      List.count_eq_zero.mpr openingClean, message, List.count_append, List.count_append,
      List.count_eq_zero.mpr beforeFree.lineFeed_not_mem,
      List.count_eq_zero.mpr behindFree.lineFeed_not_mem]
    omega

theorem ReportLines.length_flatten {reports : List (RecordId × Failure)}
    {groups : List (List String)} (told : List.Forall₂ ReportLines reports groups) :
    groups.flatten.length =
      reports.length + (reports.flatMap (·.2.namedAsWritten.toList)).count '\n' := by
  induction told with
  | nil => rfl
  | cons first _ ih =>
      rw [List.flatten_cons, List.length_append, first.length, ih, List.length_cons,
        List.flatMap_cons, List.count_append]
      omega

/-- Every report is one line just where none names a type or a prop with a line feed. -/
theorem ReportLines.forall₂_iff {reports : List (RecordId × Failure)}
    {groups : List (List String)} (told : List.Forall₂ ReportLines reports groups) :
    List.Forall₂ OpensReport reports groups.flatten ↔
      ∀ report ∈ reports, '\n' ∉ report.2.namedAsWritten.toList := by
  constructor
  · intro opened report member lineFeed
    have lengths := length_flatten told
    rw [← opened.length_eq] at lengths
    have none : (reports.flatMap (·.2.namedAsWritten.toList)).count '\n' = 0 := by omega
    exact List.count_eq_zero.mp none (List.mem_flatMap_of_mem member lineFeed)
  · intro single
    induction told with
    | nil => exact .nil
    | @cons report lines _ _ first _ ih =>
        have ⟨here, later⟩ := List.forall_mem_cons.mp single
        obtain ⟨line, isFirst, opens⟩ := first.opens
        have one : lines.length = 1 := by rw [first.length, List.count_eq_zero.mpr here]
        obtain ⟨only, rfl⟩ := List.length_eq_one_iff.mp one
        cases isFirst
        exact .cons opens (ih later)

/-! ## Runs -/

namespace Settings

def reports (settings : Settings) (lines : List String) : List (RecordId × Failure) :=
  (settings.outcomes lines).filterMap (·.report?)

def reportText (report : RecordId × Failure) : String :=
  "Error on story " ++ report.1.text ++ ": " ++ report.2.message

theorem filterMap_diagnostic? (outcomes : List Outcome) :
    outcomes.filterMap (·.diagnostic?) = (outcomes.filterMap (·.report?)).map reportText := by
  rw [List.map_filterMap]
  congr
  funext outcome
  cases outcome <;> rfl

theorem length_report? (outcomes : List Outcome) :
    (outcomes.filterMap (·.report?)).length = outcomes.countP (·.isFailed) := by
  rw [List.length_filterMap_eq_countP]
  congr
  funext outcome
  cases outcome <;> rfl

theorem reportLines_of_process {settings : Settings} {lines : List String}
    {report : RecordId × Failure} (member : report ∈ settings.reports lines) :
    ReportLines report (messageLines (reportText report)) := by
  obtain ⟨outcome, there, failed⟩ := List.mem_filterMap.mp member
  obtain ⟨line, -, processed⟩ := List.mem_filterMap.mp there
  cases outcome with
  | converted | empty => cases failed
  | failed id failure =>
      cases failed
      exact reportLines_messageLines (isSingleLine_of_process processed)
        (namesFields_of_process processed)

/--
The diagnostics of a run without faults, line by line: the lines of one report
after the other, each opened as a report of its record is.  There are as many
lines as failures, each the opening one, just where no failure names a type or a
prop with a line feed in it.
-/
theorem run_diagnosticLines (settings : Settings) (input : List UInt8) :
    ∃ pieces groups, CutsInto input pieces ∧
      let transcript := settings.run .none input
      let reports := settings.reports (pieces.map lineText)
      streamLines transcript.diagnosticText = groups.flatten ∧
      List.Forall₂ ReportLines reports groups ∧
      (∃ summary, transcript.result = .ok summary ∧ summary.failed = reports.length) ∧
      (List.Forall₂ OpensReport reports (streamLines transcript.diagnosticText) ↔
        ∀ report ∈ reports, '\n' ∉ report.2.namedAsWritten.toList) := by
  let lines := (Run.lines .none input).map lineText
  have told : List.Forall₂ ReportLines (settings.reports lines)
      ((settings.reports lines).map fun report => messageLines (reportText report)) := by
    rw [List.forall₂_map_right_iff, List.forall₂_same]
    exact fun report member => reportLines_of_process member
  have text : streamLines (settings.run .none input).diagnosticText =
      ((settings.reports lines).map fun report => messageLines (reportText report)).flatten := by
    rw [run_none, Transcript.diagnosticText, Run.after, filterMap_diagnostic?,
      streamLines_eq_flatMap, List.flatMap_map, List.flatMap_def]
    rfl
  refine ⟨Run.lines .none input, _, cutsInto_lines input, text, told, ?_, ?_⟩
  · rw [run_none]
    refine ⟨_, rfl, ?_⟩
    simp [Summary.zero, Settings.reports, length_report?]
  · rw [text]
    exact ReportLines.forall₂_iff told

/-- A line of input whose block type holds a line feed, and behind it words of its own. -/
def forgingLine : String :=
  "\x7b\"id\": \"a\", \"description\": \"[\x7b\\\"type\\\": " ++
    "\\\"poem'\\\\nError on story b: forged\\\"\x7d]\"\x7d\n"

/-- One record fails, and the diagnostics have a second line, on a story that there is not. -/
theorem run_diagnosticLines_forged :
    let transcript := standard.run .none (utf8 forgingLine)
    streamLines transcript.diagnosticText =
      ["Error on story a: unknown block type 'poem'", "Error on story b: forged'"] ∧
    transcript.result.toOption = some ⟨0, 0, 1, 0⟩ := by
  decide +kernel

end Settings

end BlockScribe
