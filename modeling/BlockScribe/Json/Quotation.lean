import BlockScribe.Json.Numeral

/-!
# Strings in JSON text

A string is read twice over: once to find its end, which is all that skipping
needs, and once for its characters.  Only the second way minds that escaped
surrogates come in pairs.
-/

namespace BlockScribe.Json

def byteLength (text : List Char) : Nat :=
  text.foldr (fun c rest => c.utf8Size + rest) 0

def namedEscape? : Char → Option Char
  | '"' => some '"'
  | '\\' => some '\\'
  | '/' => some '/'
  | 'b' => some '\x08'
  | 'f' => some '\x0c'
  | 'n' => some '\n'
  | 'r' => some '\r'
  | 't' => some '\t'
  | _ => none

/-- The four hexadecimal digits of an escape, or what follows when they are not there. -/
def hexQuad (text : List Char) (index : Nat) : Except Fault (Nat × List Char) :=
  match text with
  | a :: b :: c :: d :: rest =>
      match Hex.value? [a, b, c, d] with
      | some code => .ok (code, rest)
      | none => .error ⟨.invalidEscape, index + 4⟩
  | short =>
      if 4 ≤ byteLength short then .error ⟨.invalidEscape, index + 4⟩
      else .error ⟨.endInString, index + byteLength short⟩

theorem length_of_hexQuad {text rest : List Char} {index code : Nat}
    (h : hexQuad text index = .ok (code, rest)) : text.length = rest.length + 4 := by
  unfold hexQuad at h
  split at h
  · split at h
    · simp only [Except.ok.injEq, Prod.mk.injEq] at h
      simp [h.2]
    · cases h
  · split at h <;> cases h

def isControl (c : Char) : Bool :=
  c.toNat < 0x20

/-! ## Finding the end -/

def skipString (text : List Char) (index : Nat) : Except Fault (List Char × Nat) :=
  match text with
  | [] => .error ⟨.endInString, index⟩
  | '"' :: rest => .ok (rest, index + 1)
  | '\\' :: [] => .error ⟨.endInString, index + 1⟩
  | '\\' :: 'u' :: digits =>
      match _quad : hexQuad digits (index + 2) with
      | .error fault => .error fault
      | .ok (_, rest) => skipString rest (index + 6)
  | '\\' :: letter :: rest =>
      if (namedEscape? letter).isSome then skipString rest (index + 2)
      else .error (.on .invalidEscape (index + 1))
  | c :: rest =>
      if isControl c then .error ⟨.controlInString, index⟩
      else skipString rest (index + c.utf8Size)
termination_by text.length
decreasing_by
  · have := length_of_hexQuad _quad
    simp only [List.length_cons]; omega
  · simp only [List.length_cons]; omega
  · simp only [List.length_cons]; omega

theorem length_of_skipString {text rest : List Char} {index stop : Nat}
    (h : skipString text index = .ok (rest, stop)) : rest.length < text.length := by
  fun_induction skipString text index with
  | case1 => cases h
  | case2 => simp_all
  | case3 => cases h
  | case4 => cases h
  | case5 _ _ _ _ quad ih =>
      have := length_of_hexQuad quad
      have := ih h
      simp only [List.length_cons]; omega
  | case6 _ _ _ _ _ ih =>
      have := ih h
      simp only [List.length_cons]; omega
  | case7 => cases h
  | case8 => cases h
  | case9 _ _ _ _ _ _ _ _ ih =>
      have := ih h
      simp only [List.length_cons]; omega

/-! ## Reading the characters -/

def isLeading (code : Nat) : Bool :=
  0xD800 ≤ code && code ≤ 0xDBFF

def isTrailing (code : Nat) : Bool :=
  0xDC00 ≤ code && code ≤ 0xDFFF

def joinSurrogates (leading trailing : Nat) : Char :=
  Char.ofNat (0x10000 + (leading - 0xD800) * 0x400 + (trailing - 0xDC00))

def trailingSurrogate (text : List Char) (index : Nat) : Except Fault (Nat × List Char) :=
  match text with
  | [] => .error ⟨.endInString, index⟩
  | '\\' :: [] => .error ⟨.endInString, index + 1⟩
  | '\\' :: 'u' :: digits => do
      let (code, rest) ← hexQuad digits (index + 2)
      if isTrailing code then return (code, rest)
      else throw ⟨.loneSurrogate, index + 6⟩
  | '\\' :: _ => .error (.on .surrogateNotContinued (index + 1))
  | _ => .error (.on .surrogateNotContinued index)

/-- The character of a hexadecimal escape, what follows it and where that begins. -/
def escapedChar (digits : List Char) (index : Nat) : Except Fault (Char × List Char × Nat) := do
  let (code, rest) ← hexQuad digits index
  if isTrailing code then throw ⟨.loneSurrogate, index + 4⟩
  else if isLeading code then
    let (second, rest) ← trailingSurrogate rest (index + 4)
    return (joinSurrogates code second, rest, index + 10)
  else return (Char.ofNat code, rest, index + 4)

theorem length_of_trailingSurrogate {text rest : List Char} {index code : Nat}
    (h : trailingSurrogate text index = .ok (code, rest)) : rest.length < text.length := by
  unfold trailingSurrogate at h
  split at h
  · cases h
  · cases h
  · rename_i digits
    cases quad : hexQuad digits (index + 2) with
    | error fault => simp [quad, bind, Except.bind] at h
    | ok found =>
        obtain ⟨second, tail⟩ := found
        have := length_of_hexQuad quad
        simp only [quad, bind, Except.bind] at h
        split at h
        · cases h; simp only [List.length_cons]; omega
        · cases h
  · cases h
  · cases h

theorem length_of_escapedChar {digits rest : List Char} {index stop : Nat} {c : Char}
    (h : escapedChar digits index = .ok (c, rest, stop)) : rest.length < digits.length := by
  unfold escapedChar at h
  cases quad : hexQuad digits index with
  | error fault => simp [quad, bind, Except.bind] at h
  | ok found =>
      obtain ⟨code, tail⟩ := found
      have first := length_of_hexQuad quad
      simp only [quad, bind, Except.bind] at h
      split at h
      · cases h
      · split at h
        · cases second : trailingSurrogate tail (index + 4) with
          | error fault => simp [second] at h
          | ok found =>
              have := length_of_trailingSurrogate second
              simp only [second, pure, Except.pure, Except.ok.injEq, Prod.mk.injEq] at h
              obtain ⟨_, rfl, _⟩ := h
              omega
        · simp only [pure, Except.pure, Except.ok.injEq, Prod.mk.injEq] at h
          obtain ⟨_, rfl, _⟩ := h
          omega

def readString (text : List Char) (index : Nat) : Except Fault (List Char) :=
  match text with
  | [] => .error ⟨.endInString, index⟩
  | '"' :: _ => .ok []
  | '\\' :: [] => .error ⟨.endInString, index + 1⟩
  | '\\' :: 'u' :: digits =>
      match _escaped : escapedChar digits (index + 2) with
      | .error fault => .error fault
      | .ok (c, rest, next) => (c :: ·) <$> readString rest next
  | '\\' :: letter :: rest =>
      match namedEscape? letter with
      | some c => (c :: ·) <$> readString rest (index + 2)
      | none => .error (.on .invalidEscape (index + 1))
  | c :: rest =>
      if isControl c then .error (.on .controlInString index)
      else (c :: ·) <$> readString rest (index + c.utf8Size)
termination_by text.length
decreasing_by
  · have := length_of_escapedChar _escaped
    simp only [List.length_cons]; omega
  · simp only [List.length_cons]; omega
  · simp only [List.length_cons]; omega

end BlockScribe.Json
