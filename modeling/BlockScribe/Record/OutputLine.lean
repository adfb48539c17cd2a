import BlockScribe.Record.Outcome

/-!
# Reading output lines

A line of output is an id and a payload with a colon between them.  Ids may
hold colons and payloads never do, so the last colon is the one between.
-/

namespace BlockScribe

inductive PayloadText where
  | hex (digits : String)
  | empty
  | error
  deriving DecidableEq, Repr

structure OutputLine where
  id : String
  payload : PayloadText
  deriving DecidableEq, Repr

def PayloadText.ofString (text : String) : PayloadText :=
  if text = Outcome.emptyMark then .empty
  else if text = Outcome.errorMark then .error
  else .hex text

/-- The text before the last colon and the text behind it. -/
def splitAtLastColon? : List Char → Option (List Char × List Char)
  | [] => none
  | c :: rest =>
      match splitAtLastColon? rest with
      | some (before, behind) => some (c :: before, behind)
      | none => if c = ':' then some ([], rest) else none

def OutputLine.parse? (line : String) : Option OutputLine :=
  (splitAtLastColon? line.toList).map fun (id, payload) =>
    ⟨String.ofList id, .ofString (String.ofList payload)⟩

end BlockScribe
