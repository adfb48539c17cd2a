import BlockScribe.Proofs.Stream.Run

/-!
# Runs that a fault cuts short

A run under faults does what the run without them does on the lines that can be
read, until one of the faults strikes.  Whatever it has written by then, it has
written line by line, and each line of output that is there has been spoken of
in the diagnostics before.
-/

namespace BlockScribe

/-! ## Lines that can be read -/

/-- The longest part of an input that begins where it does and in which every line is finished. -/
structure WholeLines (input seen : List UInt8) : Prop where
  start : seen <+: input
  finished : seen = [] ∨ seen.getLast? = some lineFeed
  longest : ∀ other, other <+: input → other.getLast? = some lineFeed → other <+: seen

theorem prefix_append_cases {α : Type} {other before behind : List α}
    (start : other <+: before ++ behind) :
    other <+: before ∨ ∃ rest, other = before ++ rest ∧ rest <+: behind := by
  rcases List.prefix_or_prefix_of_prefix start (List.prefix_append before behind) with
    inside | ⟨rest, rfl⟩
  · exact .inl inside
  · exact .inr ⟨rest, rfl, (List.prefix_append_right_inj before).mp start⟩

theorem getLast?_flatten_cutLines (input : List UInt8) :
    (cutLines input).1.flatten = [] ∨ (cutLines input).1.flatten.getLast? = some lineFeed := by
  induction input using cutLines_induction with
  | unfinished piece none => exact .inl (by simp [cutLines_of_not_mem none])
  | line body rest none ih =>
      right
      rw [cutLines_append_lineFeed none, List.flatten_cons]
      rcases ih with empty | last
      · simp [empty]
      · rw [List.getLast?_append, last, Option.some_or]

theorem prefix_flatten_cutLines {input other : List UInt8} (start : other <+: input)
    (last : other.getLast? = some lineFeed) : other <+: (cutLines input).1.flatten := by
  induction input using cutLines_induction generalizing other with
  | unfinished piece none => exact absurd (start.subset (List.mem_of_getLast? last)) none
  | line body rest none ih =>
      rw [cutLines_append_lineFeed none, List.flatten_cons]
      rw [← List.singleton_append, ← List.append_assoc] at start
      rcases prefix_append_cases start with inside | ⟨further, rfl, start⟩
      · exact inside.trans (List.prefix_append _ _)
      · rw [List.prefix_append_right_inj] at start ⊢
        cases further with
        | nil => exact List.nil_prefix
        | cons byte further => exact ih start (by simpa using last)

theorem wholeLines_cutLines (input : List UInt8) :
    WholeLines input (cutLines input).1.flatten where
  start := ⟨(cutLines input).2, flatten_cutLines input⟩
  finished := getLast?_flatten_cutLines input
  longest _ := prefix_flatten_cutLines

theorem cutLines_flatten (input : List UInt8) :
    cutLines (cutLines input).1.flatten = ((cutLines input).1, []) := by
  induction input using cutLines_induction with
  | unfinished piece none => simp [cutLines_of_not_mem none, cutLines]
  | line body rest none ih =>
      simp [cutLines_append_lineFeed none, ih]

namespace Run

variable (settings : Settings) (faults : Faults)

/-- The part of an input that a run gets to see. -/
def seen (input : List UInt8) : List UInt8 :=
  if faults.input then (cutLines input).1.flatten else input

theorem lines_eq_lines_seen (input : List UInt8) :
    lines faults input = lines .none (seen faults input) := by
  cases refused : faults.input with
  | true => simp [lines, seen, refused, cutLines_flatten]
  | false => simp [lines, seen, refused, Faults.none]

/-! ## Faults that strike -/

/-- The diagnostics of the first so many records, as far as they can be written. -/
def told (outcomes : List Outcome) (count : Nat) : List String :=
  if faults.diagnostics then [] else (outcomes.take count).filterMap (·.diagnostic?)

theorem told_cons (outcome : Outcome) (outcomes : List Outcome) (count : Nat) :
    told faults (outcome :: outcomes) (count + 1) =
      (if faults.diagnostics then [] else outcome.diagnostic?.toList) ++
        told faults outcomes count := by
  cases refused : faults.diagnostics with
  | true => simp [told, refused]
  | false => cases spoken : outcome.diagnostic? <;> simp [told, refused, spoken]

variable {faults} {written : Nat} {summary : Summary}

theorem outcomes_cons (piece : List UInt8) (pieces : List (List UInt8)) :
    settings.outcomes ((piece :: pieces).map lineText) =
      (settings.process (lineText piece)).toList ++ settings.outcomes (pieces.map lineText) := by
  cases processed : settings.process (lineText piece) <;> simp [Settings.outcomes, processed]

/-- Where nothing can be written, the first record is the last. -/
theorem overLines_write (refused : faults.output = true) {pieces : List (List UInt8)}
    (nonempty : settings.outcomes (pieces.map lineText) ≠ []) :
    overLines settings faults written summary pieces =
      ⟨[], told faults (settings.outcomes (pieces.map lineText)) 1, [], .error .write⟩ := by
  induction pieces generalizing summary with
  | nil => exact absurd rfl nonempty
  | cons piece pieces ih =>
      rw [outcomes_cons] at nonempty ⊢
      rw [overLines]
      cases processed : settings.process (lineText piece) with
      | none =>
          rw [processed] at nonempty
          exact ih nonempty
      | some outcome =>
          simp [refused, told_cons]
          simp [told]

/-- A flush that fails behind `count` good ones leaves the line before it, and nothing after. -/
theorem overLines_flush (taken : faults.output = false) {pieces : List (List UInt8)}
    {count : Nat} (refused : faults.flush = some (written + count))
    (reached : count < (settings.outcomes (pieces.map lineText)).length) :
    let outcomes := settings.outcomes (pieces.map lineText)
    overLines settings faults written summary pieces =
      ⟨(outcomes.take (count + 1)).map (·.outputLine), told faults outcomes (count + 1),
        List.range' (written + 1) count, .error .flush⟩ := by
  induction pieces generalizing written summary count with
  | nil => exact absurd reached (Nat.not_lt_zero count)
  | cons piece pieces ih =>
      rw [outcomes_cons] at reached ⊢
      rw [overLines]
      cases processed : settings.process (lineText piece) with
      | none =>
          rw [processed] at reached
          exact ih refused reached
      | some outcome =>
          simp only [processed, Option.toList_some, List.singleton_append,
            List.length_cons] at reached ⊢
          rw [told_cons]
          cases count with
          | zero => simp [taken, refused, told]
          | succ count =>
              have later : faults.flush = some (written + 1 + count) := by
                rw [refused, Nat.add_right_comm, Nat.add_assoc]
              have rest := @ih (written + 1) (summary.count outcome) count later (by omega)
              simp [taken, refused, rest, List.range'_succ]

/-- Where no fault strikes, all is written; only the end may come to be a failure to read. -/
theorem overLines_through {pieces : List (List UInt8)}
    (taken : faults.output = true → settings.outcomes (pieces.map lineText) = [])
    (flushed : ∀ count, faults.flush = some (written + count) →
      (settings.outcomes (pieces.map lineText)).length ≤ count) :
    let outcomes := settings.outcomes (pieces.map lineText)
    let whole := overLines settings .none written summary pieces
    overLines settings faults written summary pieces =
      ⟨whole.output, told faults outcomes outcomes.length, whole.flushes,
        if faults.input then .error .read else whole.result⟩ := by
  induction pieces generalizing written summary with
  | nil =>
      have nothing : told faults [] 0 = [] := by simp [told]
      simp [overLines, Settings.outcomes, nothing, Faults.none]
  | cons piece pieces ih =>
      rw [outcomes_cons] at taken flushed ⊢
      cases processed : settings.process (lineText piece) with
      | none =>
          rw [processed] at taken flushed
          rw [overLines_blank settings pieces processed, overLines, processed]
          exact ih taken flushed
      | some outcome =>
          simp only [processed, Option.toList_some, List.singleton_append, List.length_cons,
            reduceCtorEq, imp_false, Bool.not_eq_true] at taken flushed ⊢
          have notHere : faults.flush ≠ some written := fun refused =>
            absurd (flushed 0 refused) (Nat.not_succ_le_zero _)
          have rest := @ih (written + 1) (summary.count outcome)
            (fun refused => by simp [taken] at refused)
            (fun count refused => Nat.le_of_succ_le_succ
              (flushed (count + 1) (by rw [refused, Nat.add_right_comm, Nat.add_assoc])))
          rw [overLines_outcome settings pieces processed, overLines, processed, told_cons]
          simp [taken, notHere, rest]

end Run

/--
Under any faults, a run goes by what the run without them does on the lines that
can be read.  Where the output takes nothing, the first record is spoken of and
nothing is written; a flush that fails ends the run behind the line it was meant
for; and else only the end of what can be read, where reading fails, is another.
No diagnostics are written where they cannot be, and that changes nothing more.
-/
theorem Settings.run_cut_by_faults (settings : Settings) (faults : Faults)
    (input : List UInt8) :
    ∃ seen pieces, (if faults.input then WholeLines input seen else seen = input) ∧
      CutsInto seen pieces ∧
      let whole := settings.run .none seen
      let outcomes := settings.outcomes (pieces.map lineText)
      let told (count : Nat) : List String :=
        if faults.diagnostics then [] else (outcomes.take count).filterMap (·.diagnostic?)
      (faults.output = true → outcomes ≠ [] →
        settings.run faults input = ⟨[], told 1, [], .error .write⟩) ∧
      (faults.output = false → ∀ count, faults.flush = some count → count < whole.output.length →
        settings.run faults input =
          ⟨whole.output.take (count + 1), told (count + 1), whole.flushes.take count,
            .error .flush⟩) ∧
      ((faults.output = true → outcomes = []) →
        (∀ count, faults.flush = some count → whole.output.length ≤ count) →
        settings.run faults input =
          ⟨whole.output, if faults.diagnostics then [] else whole.diagnostics, whole.flushes,
            if faults.input then .error .read else whole.result⟩) := by
  have run : settings.run faults input =
      Run.overLines settings faults 0 .zero (Run.lines .none (Run.seen faults input)) := by
    rw [run_eq_overLines, Run.lines_eq_lines_seen]
  refine ⟨Run.seen faults input, Run.lines .none (Run.seen faults input), ?_,
    cutsInto_lines _, ?_⟩
  · cases refused : faults.input with
    | true => simpa [Run.seen, refused] using wholeLines_cutLines input
    | false => simp [Run.seen, refused]
  rw [run, run_none]
  simp only [Run.after, List.length_map]
  refine ⟨fun refused => Run.overLines_write settings refused,
    fun taken count refused reached => ?_, fun taken flushed => ?_⟩
  · rw [Run.overLines_flush settings taken (by rw [refused, Nat.zero_add]) reached,
      List.map_take, List.take_range'_of_length_ge (Nat.le_of_lt reached)]
    rfl
  · rw [Run.overLines_through settings taken (by simpa using flushed), Run.overLines_eq_after]
    simp [Run.after, Run.told]

end BlockScribe
