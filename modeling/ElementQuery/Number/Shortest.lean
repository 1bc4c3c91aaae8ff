/-
This file finds the shortest decimal that reads back as a given number and writes it down.
-/

import ElementQuery.Number.Binary64

namespace ElementQuery

/-- A decimal is a coefficient times a power of ten. -/
structure Decimal where
  coefficient : Nat
  exponent : Int
deriving DecidableEq, Repr

namespace Decimal

/-- The digits of a natural number, the leading one first. -/
def digits (n : Nat) : List Char := Nat.toDigits 10 n

/-- Zeros at the end of the coefficient move into the exponent; the fuel bounds their number. -/
def normalize : Nat → Decimal → Decimal
  | 0, decimal => decimal
  | fuel + 1, decimal =>
      if decimal.coefficient ≠ 0 ∧ decimal.coefficient % 10 = 0 then
        normalize fuel ⟨decimal.coefficient / 10, decimal.exponent + 1⟩
      else decimal

/-- The reals that round to a number reach half a gap up and, at a power of two, a quarter of a gap
down; the ends are given in quarters of a unit and belong to the interval when the number is
even. -/
structure Interval where
  low : Nat
  high : Nat
  closed : Bool

def Interval.around (units : Nat) : Interval :=
  let exponent := Binary64.gapExponent units
  let gap := Nat.pow 2 exponent
  let below := if exponent ≠ 0 ∧ units = Binary64.exponentBit * gap then gap else 2 * gap
  ⟨4 * units - below, 4 * units + 2 * gap, units / gap % 2 == 0⟩

/-- A quotient of quarter units lies between the ends. -/
def Interval.contains (interval : Interval) (numerator denominator : Nat) : Bool :=
  if interval.closed then
    interval.low * denominator ≤ numerator && numerator ≤ interval.high * denominator
  else interval.low * denominator < numerator && numerator < interval.high * denominator

/-- The decimal position of the leading digit: units lie between ten to the power of one less and
ten to this power. -/
def leadingPosition (units : Nat) : Int :=
  (digits (units * Nat.pow 10 400 / Binary64.scale)).length - 400

/-- The units are compared with their two neighbours on a decimal grid, and the nearer one of those
that read back is taken, the upper one in a tie. -/
def onGrid? (units : Nat) (exponent : Int) : Option Decimal :=
  let up := Nat.pow 10 (-exponent).toNat
  let down := Nat.pow 10 exponent.toNat * Binary64.scale
  let interval := Interval.around units
  let lower := units * up / down
  let remainder := units * up % down
  let lowerFits := interval.contains (4 * (lower * down)) up
  let upperFits := interval.contains (4 * ((lower + 1) * down)) up
  if lowerFits && (!upperFits || 2 * remainder < down) then some ⟨lower, exponent⟩
  else if upperFits then some ⟨lower + 1, exponent⟩
  else none

/-- The coarsest grid with a decimal that reads back gives the shortest decimal; seventeen digits
always suffice. -/
def shortest (units : Nat) : Decimal :=
  let position := leadingPosition units
  let found := (List.range 17).findSome? fun count =>
    onGrid? units (position - (count + 1 : Nat))
  normalize 32 (found.getD ⟨0, 0⟩)

/-- A decimal is written in full, with a point only when it has a fraction. -/
def positional (decimal : Decimal) : List Char :=
  let written := digits decimal.coefficient
  if decimal.exponent ≥ 0 then written ++ List.replicate decimal.exponent.toNat '0'
  else
    let places := (-decimal.exponent).toNat
    let padded := List.replicate (places + 1 - written.length) '0' ++ written
    padded.take (padded.length - places) ++ '.' :: padded.drop (padded.length - places)

/-- A decimal is written with one digit before the point and a power of ten after it. -/
def scientific (decimal : Decimal) : List Char :=
  let written := digits decimal.coefficient
  let power := decimal.exponent + (written.length - 1 : Nat)
  let fraction := if written.length ≤ 1 then [] else '.' :: written.drop 1
  written.take 1 ++ fraction ++ 'e' :: (toString power).toList

end Decimal

namespace Binary64

/-- The sign is written before the shortest decimal; zero has none of its own. -/
def withSign (negative : Bool) (text : List Char) : String :=
  String.ofList (if negative then '-' :: text else text)

/-- Whole numbers below this size are written as integers. -/
def integerLimit : Nat := Nat.pow 10 15

/-- The text of a number has the fewest digits that read back and never a power of ten. -/
def text (number : Binary64) : String :=
  match number with
  | .nan => "NaN"
  | .infinite negative => withSign negative "Infinity".toList
  | .finite negative units =>
      match number.whole? with
      | some (_, 0) => "0"
      | some (_, magnitude) =>
          if magnitude < integerLimit then withSign negative (Decimal.digits magnitude)
          else withSign negative (Decimal.shortest units).positional
      | none => withSign negative (Decimal.shortest units).positional

/-- A literal shows its fraction even when it is zero, and a power of ten when it is large or
small. -/
def literal : Binary64 → String
  | .nan => "NaN"
  | .infinite negative => withSign negative "inf".toList
  | .finite negative 0 => withSign negative "0.0".toList
  | .finite negative units =>
      let decimal := Decimal.shortest units
      if units ≥ Nat.pow 10 16 * scale || units * Nat.pow 10 4 < scale then
        withSign negative decimal.scientific
      else if decimal.exponent ≥ 0 then withSign negative (decimal.positional ++ ['.', '0'])
      else withSign negative decimal.positional

end Binary64

end ElementQuery
