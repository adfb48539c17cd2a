import BlockScribe.Json.Fault

/-!
# Numerals

A numeral is split into its digits first and valued afterwards.  Digits enter
the significand while it fits 64 bits; each further digit of the whole part
counts as a power of ten, and further digits of the fraction are dropped.
-/

namespace BlockScribe.Json

structure Exponent where
  negative : Bool
  digits : List Nat
  deriving DecidableEq, Repr

/-- The parts of a numeral; a fraction or exponent that is there has a digit. -/
structure Numeral where
  negative : Bool
  whole : List Nat
  fraction : Option (List Nat)
  exponent : Option Exponent
  deriving DecidableEq, Repr

/-! ## Splitting -/

def isDigit (c : Char) : Bool :=
  '0' ≤ c && c ≤ '9'

def digitOf (c : Char) : Nat :=
  c.toNat - '0'.toNat

def spanDigits : List Char → List Nat × List Char
  | [] => ([], [])
  | c :: rest =>
      if isDigit c then
        let (digits, rest) := spanDigits rest
        (digitOf c :: digits, rest)
      else ([], c :: rest)

/-- The fault where a digit is missing: at the end of the text, or on what stands there. -/
def digitMissing (index : Nat) : List Char → Except Break (List Nat × List Char)
  | [] => .error ⟨⟨.endInValue, index⟩, ⟨.invalidNumber, index⟩⟩
  | _ :: _ => .error (.both (.on .invalidNumber index))

def someDigits (text : List Char) (index : Nat) : Except Break (List Nat × List Char) :=
  match spanDigits text with
  | ([], rest) => digitMissing index rest
  | row => .ok row

/-- The whole part; a zero stands alone. -/
def wholeDigits (text : List Char) (index : Nat) : Except Break (List Nat × List Char) :=
  match spanDigits text with
  | ([], rest) => digitMissing index rest
  | (0 :: _ :: _, _) => .error (.both (.on .invalidNumber (index + 1)))
  | row => .ok row

structure Split where
  numeral : Numeral
  rest : List Char
  stop : Nat

def splitPower (numeral : Numeral) (negative : Bool) (text : List Char) (index : Nat) :
    Except Break Split := do
  let (digits, rest) ← someDigits text index
  return ⟨{ numeral with exponent := some ⟨negative, digits⟩ }, rest, index + digits.length⟩

def splitExponent (numeral : Numeral) (text : List Char) (index : Nat) :
    Except Break Split :=
  match text with
  | '+' :: rest => splitPower numeral false rest (index + 1)
  | '-' :: rest => splitPower numeral true rest (index + 1)
  | rest => splitPower numeral false rest index

def splitTail (numeral : Numeral) (text : List Char) (index : Nat) :
    Except Break Split :=
  match text with
  | 'e' :: rest | 'E' :: rest => splitExponent numeral rest (index + 1)
  | rest => .ok ⟨numeral, rest, index⟩

def splitFraction (numeral : Numeral) (text : List Char) (index : Nat) :
    Except Break Split :=
  match text with
  | '.' :: rest => do
      let (digits, rest) ← someDigits rest (index + 1)
      splitTail { numeral with fraction := some digits } rest (index + 1 + digits.length)
  | rest => splitTail numeral rest index

def splitMagnitude (negative : Bool) (text : List Char) (index : Nat) : Except Break Split := do
  let (digits, rest) ← wholeDigits text index
  splitFraction ⟨negative, digits, none, none⟩ rest (index + digits.length)

def splitNumeral (text : List Char) (index : Nat) : Except Break Split :=
  match text with
  | '-' :: rest => splitMagnitude true rest (index + 1)
  | rest => splitMagnitude false rest index

/-! ## Value -/

def significandLimit : Nat := 0x10000000000000000
def exponentLimit : Nat := 0x80000000

def ofDigits (digits : List Nat) : Nat :=
  digits.foldl (fun value digit => 10 * value + digit) 0

/-- The significand of a row of digits and the number of digits that did not fit. -/
def wholeSignificand (digits : List Nat) : Nat × Nat :=
  digits.foldl (fun (value, dropped) digit =>
    if dropped = 0 ∧ 10 * value + digit < significandLimit then (10 * value + digit, 0)
    else (value, dropped + 1)) (0, 0)

def extendSignificand : Nat → List Nat → Nat × Nat
  | value, [] => (value, 0)
  | value, digit :: digits =>
      if 10 * value + digit < significandLimit then
        let (value, taken) := extendSignificand (10 * value + digit) digits
        (value, taken + 1)
      else (value, 0)

/-- The number of leading digits that reach the limit for exponents, when `value` is before them. -/
def reachLimit? (value : Nat) : List Nat → Option Nat
  | [] => none
  | digit :: digits =>
      if exponentLimit ≤ 10 * value + digit then some 1
      else (reachLimit? (10 * value + digit) digits).map (· + 1)

def overlongExponent? (digits : List Nat) : Option Nat :=
  reachLimit? 0 digits

namespace Numeral

/-- An integer that fits 64 bits; minus zero is none. -/
def integer? (numeral : Numeral) : Option Number :=
  let value : Int :=
    if numeral.negative then -(ofDigits numeral.whole : Int) else ofDigits numeral.whole
  if bounds : (-0x8000000000000000 ≤ value ∧ value < 0x10000000000000000) ∧
      ¬(numeral.negative ∧ value = 0) then
    some (.integer value bounds.1.1 bounds.1.2)
  else none

def scaled (numeral : Numeral) : Nat × Int :=
  let (value, dropped) := wholeSignificand numeral.whole
  let (value, taken) := extendSignificand value (numeral.fraction.getD [])
  (value, (dropped : Int) - taken)

/--
The value of a numeral that ends at `stop`.  An exponent beyond 31 bits gives
zero, or is out of range as soon as its digits show that.
-/
def number (numeral : Numeral) (stop : Nat) : Except Fault Number :=
  let (significand, power) := numeral.scaled
  let rounded (exponent : Int) :=
    match Double.ofDecimal? numeral.negative significand exponent with
    | some value => .ok (.double value)
    | none => .error ⟨.numberOutOfRange, stop⟩
  match numeral.exponent with
  | none =>
      match numeral.fraction, numeral.integer? with
      | none, some value => .ok value
      | _, _ => rounded power
  | some exponent =>
      match overlongExponent? exponent.digits with
      | some count =>
          if significand = 0 ∨ exponent.negative then
            .ok (.double (.withSign numeral.negative .zero))
          else .error ⟨.numberOutOfRange, stop - (exponent.digits.length - count)⟩
      | none =>
          let size : Int := ofDigits exponent.digits
          rounded (power + (if exponent.negative then -size else size))

/-- The reading of a numeral: skipping it leaves its value out of account. -/
def reading (numeral : Numeral) (stop : Nat) : Reading Json :=
  match numeral.number stop with
  | .ok value => .sound (.number value)
  | .error fault => .skippable fault

end Numeral

end BlockScribe.Json
