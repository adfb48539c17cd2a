import BlockScribe.Text.Utf8

/-!
# Lines

Input is cut behind every line feed, before anything is made of the bytes.  The
last piece may lack its line feed, but then it is not empty.  What is written
gets a line feed behind every message, whatever the message holds.
-/

namespace BlockScribe

/-! ## Input -/

def lineFeed : UInt8 := 0x0A

/-- The pieces that end with a line feed, and what is behind the last of them. -/
def cutLines : List UInt8 → List (List UInt8) × List UInt8
  | [] => ([], [])
  | byte :: bytes =>
      let (lines, last) := cutLines bytes
      if byte = lineFeed then ([byte] :: lines, last)
      else
        match lines with
        | [] => ([], byte :: last)
        | line :: lines => ((byte :: line) :: lines, last)

def isLineEnd (c : Char) : Bool :=
  c = '\n' || c = '\r'

def trimLineEnd (text : List Char) : List Char :=
  (text.reverse.dropWhile isLineEnd).reverse

def lineText (bytes : List UInt8) : String :=
  String.ofList (trimLineEnd (decodeLossy bytes))

theorem flatten_cutLines (bytes : List UInt8) :
    (cutLines bytes).1.flatten ++ (cutLines bytes).2 = bytes := by
  induction bytes with
  | nil => rfl
  | cons byte bytes ih =>
      rw [cutLines]
      revert ih
      rcases cutLines bytes with ⟨_ | ⟨line, lines⟩, last⟩ <;> intro ih <;>
        by_cases same : byte = lineFeed <;> simp_all

/-! ## Output -/

def streamText (messages : List String) : String :=
  String.ofList (messages.flatMap fun message => message.toList ++ ['\n'])

/-- One more character before lines; without lines, a line feed begins an empty one. -/
def consLine (c : Char) (lines : List (List Char)) : List (List Char) :=
  if c = '\n' then [] :: lines
  else (c :: lines.headD []) :: lines.tail

/-- The lines of a stream, without their ends; an unfinished last one counts. -/
def streamLines (text : String) : List String :=
  (text.toList.foldr consLine []).map String.ofList

theorem foldr_consLine_append (message rest : List Char) (single : '\n' ∉ message) :
    (message ++ '\n' :: rest).foldr consLine [] = message :: rest.foldr consLine [] := by
  induction message with
  | nil => simp [consLine]
  | cons c message ih =>
      simp only [List.mem_cons, not_or] at single
      have other : c ≠ '\n' := fun same => single.1 same.symm
      simp [ih single.2, consLine, other]

/-- Messages without line feeds are the lines of the stream they are written to. -/
theorem streamLines_streamText (messages : List String)
    (single : ∀ message ∈ messages, '\n' ∉ message.toList) :
    streamLines (streamText messages) = messages := by
  simp only [streamLines, streamText, String.toList_ofList]
  induction messages with
  | nil => rfl
  | cons message messages ih =>
      simp only [List.mem_cons, forall_eq_or_imp] at single
      simp only [List.flatMap_cons, List.append_assoc, List.cons_append, List.nil_append,
        foldr_consLine_append _ _ single.1, List.map_cons, String.ofList_toList, ih single.2]

end BlockScribe
