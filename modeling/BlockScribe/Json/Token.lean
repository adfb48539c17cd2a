import BlockScribe.Json.Quotation

/-!
# Tokens of JSON text

The pieces that a text falls into between blanks.  The first piece that is no
token, or that breaks for everyone, is the last: nothing behind it is ever
looked at.
-/

namespace BlockScribe.Json

inductive Mark where
  | openArray
  | closeArray
  | openObject
  | closeObject
  | comma
  | colon
  | stray
  deriving DecidableEq, Repr

inductive Token where
  | mark (start : Nat) (mark : Mark)
  /-- A number or one of the three words. -/
  | plain (start stop : Nat) (reading : Reading Json)
  | string (start stop : Nat) (reading : Reading String)
  deriving Repr

namespace Token

def start : Token → Nat
  | .mark start _ | .plain start _ _ | .string start _ _ => start

end Token

/-- Blanks between tokens: fewer characters than are white space elsewhere. -/
def isGap (c : Char) : Bool :=
  c = ' ' || c = '\t' || c = '\n' || c = '\r'

def markOf (c : Char) : Mark :=
  match c with
  | '[' => .openArray
  | ']' => .closeArray
  | '\x7b' => .openObject
  | '\x7d' => .closeObject
  | ',' => .comma
  | ':' => .colon
  | _ => .stray

def word? : Char → Option (List Char × Json)
  | 'n' => some (['u', 'l', 'l'], .null)
  | 't' => some (['r', 'u', 'e'], .bool true)
  | 'f' => some (['a', 'l', 's', 'e'], .bool false)
  | _ => none

def spell (letters text : List Char) (index : Nat) : Except Fault (List Char) :=
  match letters, text with
  | [], text => .ok text
  | _ :: _, [] => .error ⟨.endInValue, index⟩
  | letter :: letters, c :: text =>
      if c = letter then spell letters text (index + 1) else .error (.on .wordExpected index)

/-- One token, and if the text goes on behind it, what follows and where that begins. -/
def nextToken (c : Char) (text : List Char) (index : Nat) : Token × Option (List Char × Nat) :=
  if c = '"' then
    match skipString text (index + 1), readString text (index + 1) with
    | .ok (rest, stop), .ok chars =>
        (.string index stop (.sound (String.ofList chars)), some (rest, stop))
    | .ok (rest, stop), .error fault => (.string index stop (.skippable fault), some (rest, stop))
    | .error skipping, .error fault => (.string index index (.broken ⟨fault, skipping⟩), none)
    | .error skipping, .ok _ => (.string index index (.broken (.both skipping)), none)
  else if c = '-' || isDigit c then
    match splitNumeral (c :: text) index with
    | .ok ⟨numeral, rest, stop⟩ => (.plain index stop (numeral.reading stop), some (rest, stop))
    | .error place => (.plain index index (.broken place), none)
  else
    match word? c with
    | some (letters, value) =>
        match spell letters text (index + 1) with
        | .ok rest =>
            let stop := index + 1 + letters.length
            (.plain index stop (.sound value), some (rest, stop))
        | .error fault => (.plain index index (.broken (.both fault)), none)
    | none =>
        match markOf c with
        | .stray => (.mark index .stray, none)
        | mark => (.mark index mark, some (text, index + 1))

/-! ## Every token leaves less text -/

theorem length_of_spanDigits (text : List Char) :
    text.length = (spanDigits text).1.length + (spanDigits text).2.length := by
  induction text with
  | nil => rfl
  | cons c text ih =>
      rw [spanDigits]
      split
      · simp only [List.length_cons]; omega
      · simp

theorem length_of_spell {letters text rest : List Char} {index : Nat}
    (h : spell letters text index = .ok rest) : rest.length ≤ text.length := by
  fun_induction spell letters text index with
  | case1 => simp_all
  | case2 => cases h
  | case3 _ _ _ _ ih => exact Nat.le_succ_of_le (ih h)
  | case4 => cases h

theorem length_of_someDigits {text rest : List Char} {index : Nat} {digits : List Nat}
    (h : someDigits text index = .ok (digits, rest)) : rest.length ≤ text.length := by
  have whole := length_of_spanDigits text
  unfold someDigits at h
  split at h
  · unfold digitMissing at h; split at h <;> cases h
  · simp_all

theorem length_of_wholeDigits {text rest : List Char} {index : Nat} {digits : List Nat}
    (h : wholeDigits text index = .ok (digits, rest)) : rest.length < text.length := by
  have whole := length_of_spanDigits text
  unfold wholeDigits at h
  split at h
  · unfold digitMissing at h; split at h <;> cases h
  · cases h
  · next nonempty _ =>
      simp only [Except.ok.injEq] at h
      rw [h] at whole
      cases digits with
      | nil => exact absurd h (nonempty _)
      | cons => simp at whole; omega

theorem length_of_splitPower {numeral : Numeral} {negative : Bool} {text : List Char}
    {index : Nat} {split : Split} (h : splitPower numeral negative text index = .ok split) :
    split.rest.length ≤ text.length := by
  unfold splitPower at h
  cases digits : someDigits text index with
  | error place => simp [digits, bind, Except.bind] at h
  | ok row =>
      simp only [digits, bind, Except.bind, pure, Except.pure, Except.ok.injEq] at h
      subst h
      exact length_of_someDigits digits

theorem length_of_splitExponent {numeral : Numeral} {text : List Char} {index : Nat}
    {split : Split} (h : splitExponent numeral text index = .ok split) :
    split.rest.length ≤ text.length := by
  unfold splitExponent at h
  split at h
  · exact Nat.le_succ_of_le (length_of_splitPower h)
  · exact Nat.le_succ_of_le (length_of_splitPower h)
  · exact length_of_splitPower h

theorem length_of_splitTail {numeral : Numeral} {text : List Char} {index : Nat}
    {split : Split} (h : splitTail numeral text index = .ok split) :
    split.rest.length ≤ text.length := by
  unfold splitTail at h
  split at h
  · exact Nat.le_succ_of_le (length_of_splitExponent h)
  · exact Nat.le_succ_of_le (length_of_splitExponent h)
  · cases h; exact Nat.le_refl _

theorem length_of_splitFraction {numeral : Numeral} {text : List Char} {index : Nat}
    {split : Split} (h : splitFraction numeral text index = .ok split) :
    split.rest.length ≤ text.length := by
  unfold splitFraction at h
  split at h
  · rename_i rest
    cases digits : someDigits rest (index + 1) with
    | error place => simp [digits, bind, Except.bind] at h
    | ok row =>
        simp only [digits, bind, Except.bind] at h
        have := length_of_splitTail h
        have := length_of_someDigits digits
        simp only [List.length_cons]; omega
  · exact length_of_splitTail h

theorem length_of_splitMagnitude {negative : Bool} {text : List Char} {index : Nat}
    {split : Split} (h : splitMagnitude negative text index = .ok split) :
    split.rest.length < text.length := by
  unfold splitMagnitude at h
  cases digits : wholeDigits text index with
  | error place => simp [digits, bind, Except.bind] at h
  | ok row =>
      simp only [digits, bind, Except.bind] at h
      have := length_of_splitFraction h
      have := length_of_wholeDigits digits
      omega

theorem length_of_splitNumeral {text : List Char} {index : Nat} {split : Split}
    (h : splitNumeral text index = .ok split) : split.rest.length < text.length := by
  unfold splitNumeral at h
  split at h
  · exact Nat.lt_succ_of_lt (length_of_splitMagnitude h)
  · exact length_of_splitMagnitude h

theorem length_of_nextToken {c : Char} {text rest : List Char} {index stop : Nat} {token : Token}
    (h : nextToken c text index = (token, some (rest, stop))) :
    rest.length < (c :: text).length := by
  unfold nextToken at h
  split at h
  · split at h
    · next found _ =>
        simp only [Prod.mk.injEq, Option.some.injEq] at h
        obtain ⟨_, rfl, _⟩ := h
        exact Nat.lt_succ_of_lt (length_of_skipString found)
    · next found _ =>
        simp only [Prod.mk.injEq, Option.some.injEq] at h
        obtain ⟨_, rfl, _⟩ := h
        exact Nat.lt_succ_of_lt (length_of_skipString found)
    · simp at h
    · simp at h
  · split at h
    · split at h
      · next found =>
          simp only [Prod.mk.injEq, Option.some.injEq] at h
          obtain ⟨_, rfl, _⟩ := h
          exact length_of_splitNumeral found
      · simp at h
    · split at h
      · split at h
        · next found =>
            simp only [Prod.mk.injEq, Option.some.injEq] at h
            obtain ⟨_, rfl, _⟩ := h
            exact Nat.lt_succ_of_le (length_of_spell found)
        · simp at h
      · split at h
        · simp at h
        · simp only [Prod.mk.injEq, Option.some.injEq] at h
          obtain ⟨_, rfl, _⟩ := h
          exact Nat.lt_succ_self _

/-! ## Texts -/

def tokensFrom (text : List Char) (index : Nat) : List Token :=
  match text with
  | [] => []
  | c :: text =>
      if isGap c then tokensFrom text (index + 1)
      else
        match _next : nextToken c text index with
        | (token, none) => [token]
        | (token, some (rest, stop)) => token :: tokensFrom rest stop
termination_by text.length
decreasing_by
  · simp
  · exact length_of_nextToken _next

end BlockScribe.Json
