import BlockScribe.Double.Basic

/-!
# Decimal spelling of doubles

Writing takes the shortest row of digits that reads back, and of those the one
nearest to the number: for 1, 2, … 17 digits the two neighbours of the number
on that decimal grid are tested against the interval of reals that round to it.

Reading scales a whole significand by a power of ten in steps of at most
`10 ^ 308`, each step rounded, so it can miss the nearest number by the last
bit.
-/

namespace BlockScribe.Double

/-! ## Shortest digits -/

/-- The decimal digits of a positive number, an exponent over the first of them. -/
structure Digits where
  digits : List Nat
  exponent : Int
  deriving DecidableEq, Repr

def decimalLength (value : Nat) : Nat :=
  (Nat.toDigits 10 value).length

def decimalExponent (num den : Nat) : Int :=
  let estimate : Int := (decimalLength num : Int) - decimalLength den
  let reached :=
    if 0 ≤ estimate then den * Nat.pow 10 estimate.toNat ≤ num
    else den ≤ num * Nat.pow 10 (-estimate).toNat
  if reached then estimate else estimate - 1

/--
The ends of the interval of reals that round to a positive number, in quarters
of a unit; the lower gap is half as wide below a power of two.
-/
def roundingInterval (x : Double) : Nat × Nat :=
  let width := 1 <<< x.scale
  let low := if x.significand = leadingBit ∧ 0 < x.scale then width else 2 * width
  (4 * x.units - low, 4 * x.units + 2 * width)

/--
The point of the grid of multiples of `10 ^ grid` that is in the interval and
nearest to the number, as a multiple of the grid's step.
-/
def gridPoint? (x : Double) (grid : Int) : Option Nat :=
  let quarters := 4 * unitsPerOne
  -- one step of the grid is stepNum / stepDen quarters
  let stepNum := if 0 ≤ grid then quarters * Nat.pow 10 grid.toNat else quarters
  let stepDen := if 0 ≤ grid then 1 else Nat.pow 10 (-grid).toNat
  let target := 4 * x.units * stepDen
  let (low, high) := x.roundingInterval
  let closed := x.significand % 2 = 0
  let inside (point : Nat) : Bool :=
    let place := point * stepNum
    if closed then low * stepDen ≤ place ∧ place ≤ high * stepDen
    else low * stepDen < place ∧ place < high * stepDen
  let below := target / stepNum
  let above := below + 1
  match inside below, inside above with
  | false, false => none
  | true, false => some below
  | false, true => some above
  | true, true =>
      let under := target - below * stepNum
      let beyond := above * stepNum - target
      if under < beyond then some below
      else if beyond < under then some above
      else if below % 2 = 0 then some below else some above

/-- Tries grids of one digit more each, `tries` of them. -/
def digitsFrom (x : Double) (first : Int) : Nat → Int → Digits
  | 0, _ => ⟨[], first⟩
  | tries + 1, grid =>
      match x.gridPoint? grid with
      | none => digitsFrom x first tries (grid - 1)
      | some point =>
          let digits := (Nat.toDigits 10 point).map fun c => c.toNat - 48
          let exponent := grid + (digits.length - 1 : Nat)
          ⟨(digits.reverse.dropWhile (· = 0)).reverse, exponent⟩

def shortestDigits (x : Double) : Digits :=
  let first := decimalExponent x.units unitsPerOne
  digitsFrom x first 17 first

/-! ## Scaling by powers of ten -/

def maxPower : Nat := 308

def scaleUp? (x : Double) (exponent : Nat) : Option Double :=
  if exponent ≤ maxPower then x.mul? (powerOfTen exponent)
  else if x.isZero then some x
  else none

def scaleDown (x : Double) (exponent : Nat) : Double :=
  if exponent ≤ maxPower then x.div (powerOfTen exponent)
  else if x.isZero then x
  else scaleDown (x.div (powerOfTen maxPower)) (exponent - maxPower)
termination_by exponent
decreasing_by simp only [maxPower] at *; omega

def ofDecimal? (negative : Bool) (significand : Nat) (exponent : Int) : Option Double :=
  let whole := ofNat significand
  let scaled :=
    if 0 ≤ exponent then whole.scaleUp? exponent.toNat
    else some (whole.scaleDown (-exponent).toNat)
  withSign negative <$> scaled

end BlockScribe.Double
