import BlockScribe.Proofs.Stream.Run
import BlockScribe.Proofs.Text.Boundaries

/-!
# Inputs that come to the same

A run makes nothing of its input but the texts of its lines, so inputs whose
lines have the same texts leave the same behind, whatever the faults.  Bytes
that are no text are replaced within their line: it does not matter if that is
done before the input is cut or after.  Nor does it matter how lines end.
-/

namespace BlockScribe

/-! ## Texts of lines -/

namespace Run

theorem overLines_congr (settings : Settings) (faults : Faults) {written : Nat}
    {summary : Summary} {pieces others : List (List UInt8)}
    (same : others.map lineText = pieces.map lineText) :
    overLines settings faults written summary others =
      overLines settings faults written summary pieces := by
  induction pieces generalizing others written summary with
  | nil =>
      rw [List.map_nil, List.map_eq_nil_iff] at same
      rw [same]
  | cons piece pieces ih =>
      cases others with
      | nil => simp at same
      | cons other others =>
          simp only [List.map_cons, List.cons.injEq] at same
          simp [overLines, same.1, ih same.2]

theorem map_lineText (pieces : List (List UInt8)) :
    pieces.map lineText =
      (pieces.map decodeLossy).map fun text => String.ofList (trimLineEnd text) := by
  simp [lineText]

end Run

theorem Settings.run_congr (settings : Settings) (faults : Faults) {input other : List UInt8}
    (same : (Run.lines faults other).map lineText = (Run.lines faults input).map lineText) :
    settings.run faults other = settings.run faults input := by
  rw [run_eq_overLines, run_eq_overLines, Run.overLines_congr settings faults same]

/-! ## Bytes that are no text -/

theorem toNat_ne_of_not_mem {bytes : List UInt8} (none : lineFeed ∉ bytes) :
    ∀ byte ∈ bytes, byte.toNat ≠ '\n'.toNat := by
  intro byte member same
  have here : byte = lineFeed := UInt8.toNat_inj.mp same
  exact none (here ▸ member)

theorem decodeLossy_append_lineFeed (before after : List UInt8) :
    decodeLossy (before ++ lineFeed :: after) =
      decodeLossy before ++ '\n' :: decodeLossy after :=
  decodeLossy_append_ascii before (by decide) after

theorem lineFeed_not_mem_utf8_decodeLossy {piece : List UInt8} (none : lineFeed ∉ piece) :
    lineFeed ∉ utf8 (String.ofList (decodeLossy piece)) := by
  apply lineFeed_not_mem_utf8
  rw [String.toList_ofList]
  exact lineFeed_not_mem_decodeLossy (toNat_ne_of_not_mem none)

theorem decodeLossy_utf8_decodeLossy (piece : List UInt8) :
    decodeLossy (utf8 (String.ofList (decodeLossy piece))) = decodeLossy piece := by
  rw [decodeLossy_utf8, String.toList_ofList]

theorem utf8_decodeLossy_eq_nil (piece : List UInt8) :
    utf8 (String.ofList (decodeLossy piece)) = [] ↔ piece = [] := by
  rw [← decodeLossy_eq_nil, decodeLossy_utf8_decodeLossy, decodeLossy_eq_nil]

/-- Each line of a text that was decoded as a whole is the line decoded on its own. -/
theorem map_decodeLossy_lines (faults : Faults) (input : List UInt8) :
    (Run.lines faults (utf8 (String.ofList (decodeLossy input)))).map decodeLossy =
      (Run.lines faults input).map decodeLossy := by
  induction input using cutLines_induction with
  | unfinished piece none =>
      simp only [Run.lines_unfinished (lineFeed_not_mem_utf8_decodeLossy none),
        Run.lines_unfinished none, utf8_decodeLossy_eq_nil]
      split <;> simp [decodeLossy_utf8_decodeLossy]
  | line body rest none ih =>
      have parts : String.ofList (decodeLossy body ++ '\n' :: decodeLossy rest) =
          String.ofList (decodeLossy body) ++ "\n" ++ String.ofList (decodeLossy rest) := by
        simp [← String.toList_inj]
      rw [decodeLossy_append_lineFeed, parts, utf8_append_lineFeed,
        Run.lines_append_lineFeed (lineFeed_not_mem_utf8_decodeLossy none),
        Run.lines_append_lineFeed none, List.map_cons, List.map_cons, ih,
        decodeLossy_append_lineFeed, decodeLossy_append_lineFeed,
        decodeLossy_utf8_decodeLossy]

theorem flatMap_decodeLossy_lines (input : List UInt8) :
    (Run.lines .none input).flatMap decodeLossy = decodeLossy input := by
  induction input using cutLines_induction with
  | unfinished piece none =>
      rw [Run.lines_unfinished none]
      by_cases empty : piece = [] <;> simp [empty, Faults.none, decodeLossy_eq_nil]
  | line body rest none ih =>
      rw [Run.lines_append_lineFeed none, List.flatMap_cons, ih, decodeLossy_append_lineFeed,
        decodeLossy_append_lineFeed]
      simp [decodeLossy_eq_nil]

theorem count_decodeLossy (input : List UInt8) :
    (decodeLossy input).count '\n' = input.count lineFeed := by
  induction input using cutLines_induction with
  | unfinished piece none =>
      rw [List.count_eq_zero_of_not_mem none, List.count_eq_zero]
      exact lineFeed_not_mem_decodeLossy (toNat_ne_of_not_mem none)
  | line body rest none ih =>
      have before : '\n' ∉ decodeLossy body :=
        lineFeed_not_mem_decodeLossy (toNat_ne_of_not_mem none)
      rw [decodeLossy_append_lineFeed]
      simp [List.count_append, List.count_eq_zero_of_not_mem none,
        List.count_eq_zero_of_not_mem before, ih]

/--
Under any faults, an input and the text that it is taken for as a whole leave the
same behind.  Their lines are taken for the same texts, and put together again
these are the whole text: every line feed of the input is one of the text, there
are no others, and what stands before one does not depend on what stands behind.
-/
theorem Settings.run_utf8_decodeLossy (settings : Settings) (faults : Faults)
    (input : List UInt8) :
    let text := String.ofList (decodeLossy input)
    settings.run faults (utf8 text) = settings.run faults input ∧
      (Run.lines faults (utf8 text)).map decodeLossy =
        (Run.lines faults input).map decodeLossy ∧
      (Run.lines .none input).flatMap decodeLossy = decodeLossy input ∧
      (decodeLossy input).count '\n' = input.count lineFeed ∧
      ∀ before after, decodeLossy (before ++ lineFeed :: after) =
        decodeLossy before ++ '\n' :: decodeLossy after := by
  have lines := map_decodeLossy_lines faults input
  refine ⟨settings.run_congr faults ?_, lines, flatMap_decodeLossy_lines input,
    count_decodeLossy input, decodeLossy_append_lineFeed⟩
  rw [Run.map_lineText, Run.map_lineText, lines]

/-- A sequence that a line feed cuts off does not swallow it. -/
example : decodeLossy [0xE2, 0x82, 0x0A, 0x61] = ['\ufffd', '\n', 'a'] := by decide

/-! ## Ends of lines -/

def carriageReturn : UInt8 := 0x0D

/-- Inputs that differ in nothing but the carriage returns before their line feeds. -/
inductive SameLines : List UInt8 → List UInt8 → Prop
  | unfinished (piece : List UInt8) (none : lineFeed ∉ piece) : SameLines piece piece
  | line (body : List UInt8) (none : lineFeed ∉ body) (returns returns' : Nat)
      {rest rest' : List UInt8} (behind : SameLines rest rest') :
      SameLines (body ++ List.replicate returns carriageReturn ++ lineFeed :: rest)
        (body ++ List.replicate returns' carriageReturn ++ lineFeed :: rest')

theorem trimLineEnd_append {ending : List Char} (ends : ∀ c ∈ ending, isLineEnd c)
    (text : List Char) : trimLineEnd (text ++ ending) = trimLineEnd text := by
  have passes : ∀ c ∈ ending.reverse, isLineEnd c := by simpa using ends
  rw [trimLineEnd, List.reverse_append, List.dropWhile_append_of_pos passes, trimLineEnd]

theorem decodeLossy_append_returns (body : List UInt8) (returns : Nat) (rest : List UInt8) :
    decodeLossy (body ++ List.replicate returns carriageReturn ++ lineFeed :: rest) =
      decodeLossy body ++ List.replicate returns '\r' ++ '\n' :: decodeLossy rest := by
  induction returns generalizing body with
  | zero => simp [decodeLossy_append_lineFeed]
  | succ returns ih =>
      have first : decodeLossy (body ++ [carriageReturn]) = decodeLossy body ++ ['\r'] :=
        decodeLossy_append_ascii body (by decide) []
      have later := ih (body ++ [carriageReturn])
      rw [first] at later
      simpa [List.replicate_succ] using later

/-- However many carriage returns there are before a line feed, the line has one text. -/
theorem lineText_returns (body : List UInt8) (returns : Nat) :
    lineText (body ++ List.replicate returns carriageReturn ++ [lineFeed]) = lineText body := by
  have ends : ∀ c ∈ List.replicate returns '\r' ++ ['\n'], isLineEnd c := by
    intro c member
    rcases List.mem_append.mp member with returned | fed
    · simp [isLineEnd, List.eq_of_mem_replicate returned]
    · simp [isLineEnd, List.mem_singleton.mp fed]
  have empty : decodeLossy [] = [] := decodeLossy_eq_nil.mpr rfl
  rw [lineText, decodeLossy_append_returns, empty, List.append_assoc, trimLineEnd_append ends,
    lineText]

theorem lineText_append_lineFeed (body : List UInt8) :
    lineText (body ++ [lineFeed]) = lineText body := by
  simpa using lineText_returns body 0

theorem lineFeed_not_mem_returns {body : List UInt8} (none : lineFeed ∉ body) (returns : Nat) :
    lineFeed ∉ body ++ List.replicate returns carriageReturn := by
  have other : lineFeed ≠ carriageReturn := by decide
  simp [none, other]

theorem SameLines.map_lineText {input other : List UInt8} (same : SameLines input other)
    (faults : Faults) :
    (Run.lines faults other).map lineText = (Run.lines faults input).map lineText := by
  induction same with
  | unfinished => rfl
  | line body none returns returns' _ ih =>
      simp only [Run.lines_append_lineFeed (lineFeed_not_mem_returns none _), List.map_cons,
        lineText_returns, ih]

/-- A last line that holds anything but its line feed is the same line without it. -/
theorem map_lineText_append_lineFeed {faults : Faults} (readable : faults.input = false)
    {input : List UInt8} (nonempty : input ≠ []) (unfinished : input.getLast? ≠ some lineFeed) :
    (Run.lines faults (input ++ [lineFeed])).map lineText =
      (Run.lines faults input).map lineText := by
  induction input using cutLines_induction with
  | unfinished piece none =>
      have end_nil : Run.lines faults [] = [] := by simp [Run.lines, cutLines]
      simp [Run.lines_append_lineFeed none, Run.lines_unfinished none, readable, nonempty,
        end_nil, lineText_append_lineFeed]
  | line body rest none ih =>
      have more : rest ≠ [] := by
        rintro rfl
        simp at unfinished
      have last : rest.getLast? ≠ some lineFeed := by
        intro fed
        apply unfinished
        simp [List.getLast?_append, List.getLast?_cons, fed]
      rw [List.append_assoc, List.cons_append, Run.lines_append_lineFeed none,
        Run.lines_append_lineFeed none, List.map_cons, List.map_cons, ih more last]

/--
Carriage returns before line feeds can be put in and left out line by line, and
nothing of what a run leaves behind is changed by it.  Where all of the input can
be read, the line feed behind a last line that is not empty does not matter either.
-/
theorem Settings.run_sameLines (settings : Settings) (faults : Faults)
    {input other : List UInt8} (same : SameLines input other) :
    settings.run faults other = settings.run faults input ∧
      (faults.input = false → other ≠ [] → other.getLast? ≠ some lineFeed →
        settings.run faults (other ++ [lineFeed]) = settings.run faults input) := by
  have replaced : settings.run faults other = settings.run faults input :=
    settings.run_congr faults (same.map_lineText faults)
  refine ⟨replaced, fun readable nonempty unfinished => ?_⟩
  rw [← replaced]
  exact settings.run_congr faults (map_lineText_append_lineFeed readable nonempty unfinished)

/-- An open quotation and a cut off sequence before the returns, and a last line without its end. -/
theorem Settings.run_sameLines_sample :
    let input : List UInt8 := [0x22, 0xE2, 0x0D, 0x0D, 0x0A, 0x78]
    let other : List UInt8 := [0x22, 0xE2, 0x0A, 0x78]
    SameLines input other ∧ other ≠ [] ∧ other.getLast? ≠ some lineFeed ∧
      standard.run .none other = standard.run .none input ∧
      standard.run .none (other ++ [lineFeed]) = standard.run .none input := by
  intro input other
  have same : SameLines input other :=
    .line [0x22, 0xE2] (by decide) 2 0 (.unfinished [0x78] (by decide))
  have nonempty : other ≠ [] := by decide
  have unfinished : other.getLast? ≠ some lineFeed := by decide
  have runs := standard.run_sameLines .none same
  exact ⟨same, nonempty, unfinished, runs.1, runs.2 rfl nonempty unfinished⟩

end BlockScribe
