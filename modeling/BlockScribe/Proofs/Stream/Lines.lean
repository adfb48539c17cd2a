import BlockScribe.Proofs.Text.Utf8
import BlockScribe.Stream.Run

/-!
# Cutting input into lines

What it means for pieces to be the lines of an input, and that there is one way
only to cut an input so.  A run takes these pieces, and no others, as its lines.
-/

namespace BlockScribe

/-- Pieces that end behind each line feed; only the last of them may lack one. -/
structure CutsInto (input : List UInt8) (pieces : List (List UInt8)) : Prop where
  whole : pieces.flatten = input
  nonempty : ∀ piece ∈ pieces, piece ≠ []
  ended : ∀ piece ∈ pieces.dropLast, piece.getLast? = some lineFeed
  single : ∀ piece ∈ pieces, lineFeed ∉ piece.dropLast

/-! ## Lines of an input -/

theorem cutLines_of_not_mem {bytes : List UInt8} (none : lineFeed ∉ bytes) :
    cutLines bytes = ([], bytes) := by
  induction bytes with
  | nil => rfl
  | cons byte bytes ih =>
      simp only [List.mem_cons, not_or] at none
      have other : byte ≠ lineFeed := fun same => none.1 same.symm
      simp [cutLines, ih none.2, other]

theorem cutLines_append_lineFeed {body : List UInt8} (none : lineFeed ∉ body)
    (rest : List UInt8) :
    cutLines (body ++ lineFeed :: rest) =
      ((body ++ [lineFeed]) :: (cutLines rest).1, (cutLines rest).2) := by
  induction body with
  | nil => simp [cutLines]
  | cons byte body ih =>
      simp only [List.mem_cons, not_or] at none
      have other : byte ≠ lineFeed := fun same => none.1 same.symm
      simp [cutLines, ih none.2, other]

namespace Run

theorem lines_none (input : List UInt8) :
    lines .none input = (cutLines input).1 ++
      (if (cutLines input).2 = [] then [] else [(cutLines input).2]) := by
  cases last : (cutLines input).2 with
  | nil => simp [lines, last]
  | cons byte bytes => simp [lines, last, Faults.none]

variable {faults : Faults}

theorem lines_unfinished {piece : List UInt8} (none : lineFeed ∉ piece) :
    lines faults piece = if faults.input ∨ piece = [] then [] else [piece] := by
  simp [lines, cutLines_of_not_mem none]

theorem lines_of_not_mem {piece : List UInt8} (nonempty : piece ≠ []) (none : lineFeed ∉ piece) :
    lines .none piece = [piece] := by
  simp [lines_unfinished none, nonempty, Faults.none]

theorem lines_append_lineFeed {body : List UInt8} (none : lineFeed ∉ body) (rest : List UInt8) :
    lines faults (body ++ lineFeed :: rest) = (body ++ [lineFeed]) :: lines faults rest := by
  simp only [lines, cutLines_append_lineFeed none]
  split <;> simp

end Run

/-! ## Cuts -/

theorem exists_body (input : List UInt8) :
    lineFeed ∉ input ∨ ∃ body rest, input = body ++ lineFeed :: rest ∧ lineFeed ∉ body := by
  by_cases member : lineFeed ∈ input
  · obtain ⟨body, rest, cut, none⟩ := List.eq_append_cons_of_mem member
    exact .inr ⟨body, rest, cut, none⟩
  · exact .inl member

/-- What holds of an unfinished line, and of a finished one before any rest, holds of all input. -/
theorem cutLines_induction {motive : List UInt8 → Prop}
    (unfinished : ∀ piece, lineFeed ∉ piece → motive piece)
    (line : ∀ body rest, lineFeed ∉ body → motive rest → motive (body ++ lineFeed :: rest))
    (input : List UInt8) : motive input := by
  rcases exists_body input with none | ⟨body, rest, cut, none⟩
  · exact unfinished input none
  · rw [cut]
    exact line body rest none (cutLines_induction unfinished line rest)
termination_by input.length
decreasing_by
  rw [cut, List.length_append, List.length_cons]
  omega

theorem cutsInto_lines (input : List UInt8) : CutsInto input (Run.lines .none input) := by
  induction input using cutLines_induction with
  | unfinished piece none =>
      by_cases empty : piece = []
      · subst empty
        constructor <;> simp [Run.lines_none, cutLines]
      · rw [Run.lines_of_not_mem empty none]
        have before : lineFeed ∉ piece.dropLast := fun member =>
          none (List.dropLast_subset piece member)
        constructor <;> simp [empty, before]
  | line body rest none later =>
      rw [Run.lines_append_lineFeed none]
      constructor
      · simp [later.whole]
      · simpa using later.nonempty
      · intro piece member
        cases further : Run.lines .none rest with
        | nil => simp [further] at member
        | cons next pieces =>
            have ended := later.ended
            rw [further] at member ended
            rcases List.mem_cons.mp member with rfl | member
            · simp
            · exact ended piece member
      · simpa [none] using later.single

theorem CutsInto.tail {input piece : List UInt8} {pieces : List (List UInt8)}
    (cuts : CutsInto input (piece :: pieces)) : CutsInto pieces.flatten pieces := by
  constructor
  · rfl
  · exact fun next member => cuts.nonempty next (List.mem_cons_of_mem _ member)
  · intro next member
    apply cuts.ended next
    cases pieces with
    | nil => simp at member
    | cons => exact List.mem_cons_of_mem _ member
  · exact fun next member => cuts.single next (List.mem_cons_of_mem _ member)

theorem CutsInto.eq_lines {input : List UInt8} {pieces : List (List UInt8)}
    (cuts : CutsInto input pieces) : pieces = Run.lines .none input := by
  induction pieces generalizing input with
  | nil =>
      rw [← cuts.whole]
      rfl
  | cons piece pieces ih =>
      have before : lineFeed ∉ piece.dropLast := cuts.single piece List.mem_cons_self
      have nonempty : piece ≠ [] := cuts.nonempty piece List.mem_cons_self
      have piece_eq := List.dropLast_concat_getLast nonempty
      rw [← cuts.whole, List.flatten_cons]
      by_cases ended : piece.getLast nonempty = lineFeed
      · rw [ended] at piece_eq
        rw [← piece_eq, List.append_assoc, List.singleton_append,
          Run.lines_append_lineFeed before, ← ih cuts.tail]
      -- A piece that lacks its line feed is the last one.
      · cases pieces with
        | nil =>
            have none : lineFeed ∉ piece := by
              rw [← piece_eq]
              simp [before, Ne.symm ended]
            rw [List.flatten_nil, List.append_nil, Run.lines_of_not_mem nonempty none]
        | cons next pieces =>
            have last := cuts.ended piece (by simp)
            rw [List.getLast?_eq_some_getLast nonempty] at last
            exact absurd (Option.some_inj.mp last) ended

/-! ## Texts of lines -/

/-- All line feeds and carriage returns at the end of a text are gone, and nothing else. -/
def StripsTo (text line : List Char) : Prop :=
  ∃ ending, text = line ++ ending ∧ (∀ c ∈ ending, c = '\n' ∨ c = '\r') ∧
    ∀ c ∈ line.getLast?, c ≠ '\n' ∧ c ≠ '\r'

theorem stripsTo_trimLineEnd (text : List Char) : StripsTo text (trimLineEnd text) := by
  refine ⟨(text.reverse.takeWhile isLineEnd).reverse, ?_, fun c member => ?_, fun c last => ?_⟩
  · rw [trimLineEnd, ← List.reverse_append, List.takeWhile_append_dropWhile,
      List.reverse_reverse]
  · have passes := List.all_eq_true.mp List.all_takeWhile c (List.mem_reverse.mp member)
    simpa [isLineEnd] using passes
  · rw [trimLineEnd, List.getLast?_reverse] at last
    have fails := List.head?_dropWhile_not isLineEnd text.reverse
    rw [last] at fails
    simpa [isLineEnd] using fails

theorem stripsTo_lineText (piece : List UInt8) :
    StripsTo (decodeLossy piece) (lineText piece).toList := by
  rw [lineText, String.toList_ofList]
  exact stripsTo_trimLineEnd _

/-! ## Lines written as text -/

theorem lineFeed_not_mem_utf8 {line : String} (single : '\n' ∉ line.toList) :
    lineFeed ∉ utf8 line :=
  ascii_not_mem_utf8 (by decide) rfl single

theorem utf8_append_lineFeed (before after : String) :
    utf8 (before ++ "\n" ++ after) = utf8 before ++ lineFeed :: utf8 after := by
  have char : String.utf8EncodeChar '\n' = [lineFeed] := by decide
  simp [utf8, char]

theorem streamText_cons (message : String) (messages : List String) :
    streamText (message :: messages) = message ++ "\n" ++ streamText messages := by
  simp [streamText, ← String.toList_inj]

/-- A text that is read as it was written where it is a line of its own. -/
structure IsLine (line : String) : Prop where
  nonempty : line ≠ ""
  single : '\n' ∉ line.toList
  kept : trimLineEnd line.toList = line.toList

namespace IsLine

variable {line : String}

theorem lines_utf8 (isLine : IsLine line) :
    (Run.lines .none (utf8 line)).map lineText = [line] := by
  have bytes : utf8 line ≠ [] := by
    intro empty
    have chars := decodeLossy_utf8 line
    rw [empty] at chars
    exact isLine.nonempty (String.toList_eq_nil_iff.mp chars.symm)
  rw [Run.lines_of_not_mem bytes (lineFeed_not_mem_utf8 isLine.single), List.map_singleton,
    lineText, decodeLossy_utf8, isLine.kept, String.ofList_toList]

theorem lines_append (isLine : IsLine line) (rest : List UInt8) :
    (Run.lines .none (utf8 line ++ lineFeed :: rest)).map lineText =
      line :: (Run.lines .none rest).map lineText := by
  have text : lineText (utf8 line ++ [lineFeed]) = line := by
    rw [lineText, decodeLossy, decodeFrom_utf8]
    show String.ofList (trimLineEnd (line.toList ++ ['\n'])) = line
    have trimmed : trimLineEnd (line.toList ++ ['\n']) = trimLineEnd line.toList := by
      simp [trimLineEnd, isLineEnd]
    rw [trimmed, isLine.kept, String.ofList_toList]
  rw [Run.lines_append_lineFeed (lineFeed_not_mem_utf8 isLine.single), List.map_cons, text]

end IsLine

theorem joined_singleton {line : String} {input : List UInt8}
    (fed : input = utf8 line ∨ input = utf8 line ++ [lineFeed]) :
    input = utf8 ("\n".intercalate [line]) ∨ input = utf8 (streamText [line]) := by
  rcases fed with rfl | rfl
  · exact .inl (by rw [String.intercalate_singleton])
  · right
    rw [streamText_cons, utf8_append_lineFeed]
    rfl

/-- Lines that are put together, with line feeds between or behind them, are taken apart again. -/
theorem lines_utf8_joined {lines : List String} (each : ∀ line ∈ lines, IsLine line)
    {input : List UInt8}
    (fed : input = utf8 ("\n".intercalate lines) ∨ input = utf8 (streamText lines)) :
    (Run.lines .none input).map lineText = lines := by
  rcases fed with rfl | rfl
  · induction lines with
    | nil => rfl
    | cons line lines ih =>
        obtain ⟨first, later⟩ := List.forall_mem_cons.mp each
        cases lines with
        | nil => rw [String.intercalate_singleton, first.lines_utf8]
        | cons next lines =>
            rw [String.intercalate_cons_cons, utf8_append_lineFeed, first.lines_append, ih later]
  · induction lines with
    | nil => rfl
    | cons line lines ih =>
        obtain ⟨first, later⟩ := List.forall_mem_cons.mp each
        rw [streamText_cons, utf8_append_lineFeed, first.lines_append, ih later]

end BlockScribe
