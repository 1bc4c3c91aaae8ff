/-
This file computes with binary64 numbers: every operation is exact first and then rounded once to
the nearest number, a tie going to the even one.
-/

namespace ElementQuery

/-- A finite number is a sign and a count of units, a unit being the least positive number. -/
inductive Binary64 where
  | nan
  | infinite (negative : Bool)
  | finite (negative : Bool) (units : Nat)
deriving DecidableEq, Repr

namespace Binary64

/-- A unit is one over two to this power. -/
def fractionBits : Nat := 1074

/-- One is this many units. -/
def scale : Nat := Nat.pow 2 fractionBits

/-- Finite numbers are smaller than two to the power of 1024. -/
def limit : Nat := Nat.pow 2 (1024 + fractionBits)

/-- Numbers of this size lie two to this power units apart, because they have 53 binary digits. -/
def gapExponent (units : Nat) : Nat := units.log2 - 52

/-- The quotient is rounded to the nearest natural number, a tie going to the even one. -/
def roundHalfEven (numerator denominator : Nat) : Nat :=
  let quotient := numerator / denominator
  let twice := 2 * (numerator % denominator)
  if twice < denominator then quotient
  else if denominator < twice then quotient + 1
  else quotient + quotient % 2

/-- A quotient of units is rounded to the nearest number, and overflow goes to infinity. -/
def roundQuotient (negative : Bool) (numerator denominator : Nat) : Binary64 :=
  let gap := Nat.pow 2 (gapExponent (numerator / denominator))
  let units := roundHalfEven numerator (denominator * gap) * gap
  if units < limit then .finite negative units else .infinite negative

/-- A sign and a count of units make an integer. -/
def signed (negative : Bool) (units : Nat) : Int :=
  if negative then -(units : Int) else units

def zero : Binary64 := .finite false 0

def negativeZero : Binary64 := .finite true 0

def one : Binary64 := .finite false scale

def half : Binary64 := .finite false (scale / 2)

def ofNat (n : Nat) : Binary64 := roundQuotient false (n * scale) 1

/-- The digits are read as one number and divided by ten once for every decimal place. -/
def ofDecimal (digits places : Nat) : Binary64 :=
  roundQuotient false (digits * scale) (Nat.pow 10 places)

def neg : Binary64 → Binary64
  | .nan => .nan
  | .infinite negative => .infinite !negative
  | .finite negative units => .finite (!negative) units

/-- A sum that is zero is negative only when both terms are. -/
def add : Binary64 → Binary64 → Binary64
  | .finite negative units, .finite otherNegative otherUnits =>
      let total := signed negative units + signed otherNegative otherUnits
      if total = 0 then .finite (negative && otherNegative) 0
      else roundQuotient (total < 0) total.natAbs 1
  | .nan, _ => .nan
  | _, .nan => .nan
  | .infinite negative, .infinite otherNegative =>
      if negative = otherNegative then .infinite negative else .nan
  | .infinite negative, .finite _ _ => .infinite negative
  | .finite _ _, .infinite negative => .infinite negative

def sub (first second : Binary64) : Binary64 := add first (neg second)

/-- Zero times infinity is no number. -/
def mul : Binary64 → Binary64 → Binary64
  | .finite negative units, .finite otherNegative otherUnits =>
      roundQuotient (negative != otherNegative) (units * otherUnits) scale
  | .nan, _ => .nan
  | _, .nan => .nan
  | .infinite negative, .infinite otherNegative => .infinite (negative != otherNegative)
  | .infinite negative, .finite otherNegative units =>
      if units = 0 then .nan else .infinite (negative != otherNegative)
  | .finite negative units, .infinite otherNegative =>
      if units = 0 then .nan else .infinite (negative != otherNegative)

/-- A nonzero number over zero is infinite, and zero over zero is no number. -/
def div : Binary64 → Binary64 → Binary64
  | .finite negative units, .finite otherNegative otherUnits =>
      if otherUnits = 0 then
        if units = 0 then .nan else .infinite (negative != otherNegative)
      else roundQuotient (negative != otherNegative) (units * scale) otherUnits
  | .nan, _ => .nan
  | _, .nan => .nan
  | .infinite _, .infinite _ => .nan
  | .infinite negative, .finite otherNegative _ => .infinite (negative != otherNegative)
  | .finite negative _, .infinite otherNegative => .finite (negative != otherNegative) 0

/-- The remainder of the quotient cut toward zero is exact and has the sign of the dividend. -/
def rem : Binary64 → Binary64 → Binary64
  | .finite negative units, .finite _ otherUnits =>
      if otherUnits = 0 then .nan else .finite negative (units % otherUnits)
  | .finite negative units, .infinite _ => .finite negative units
  | _, _ => .nan

/-- Numbers other than NaN are compared by value, so that the two zeros are equal. -/
def compare? : Binary64 → Binary64 → Option Ordering
  | .finite negative units, .finite otherNegative otherUnits =>
      some (compare (signed negative units) (signed otherNegative otherUnits))
  | .nan, _ => none
  | _, .nan => none
  | .infinite negative, .infinite otherNegative => some (compare otherNegative negative)
  | .infinite negative, .finite _ _ => some (if negative then .lt else .gt)
  | .finite _ _, .infinite negative => some (if negative then .gt else .lt)

def same (first second : Binary64) : Bool := compare? first second == some .eq

def less (first second : Binary64) : Bool := compare? first second == some .lt

def atMost (first second : Binary64) : Bool := less first second || same first second

/-- A number is true when it is neither a zero nor NaN. -/
def isTrue : Binary64 → Bool
  | .nan => false
  | .infinite _ => true
  | .finite _ units => units != 0

/-- The greatest whole number that is not above a number keeps the sign of zero. -/
def floor : Binary64 → Binary64
  | .finite negative units =>
      let whole := units / scale
      let below := if negative && units % scale != 0 then whole + 1 else whole
      .finite negative (below * scale)
  | other => other

def ceiling (number : Binary64) : Binary64 := neg (floor (neg number))

/-- A number is rounded by adding a half and going down. -/
def round (number : Binary64) : Binary64 := floor (add number half)

/-- A finite number has a whole part and a sign when it has no fraction. -/
def whole? : Binary64 → Option (Bool × Nat)
  | .finite negative units =>
      if units % scale = 0 then some (negative, units / scale) else none
  | _ => none

/-- In the interchange format, the sign follows 63 lower bits. -/
def signBit : Nat := Nat.pow 2 63

/-- In the interchange format, the exponent follows the 52 bits of the fraction. -/
def exponentBit : Nat := Nat.pow 2 52

/-- The interchange format has one sign bit, eleven exponent bits and 52 fraction bits. -/
def toBits : Binary64 → Nat
  | .nan => 2047 * exponentBit + exponentBit / 2
  | .infinite negative => (if negative then signBit else 0) + 2047 * exponentBit
  | .finite negative units =>
      let exponent := gapExponent units
      (if negative then signBit else 0) + exponent * exponentBit + units / Nat.pow 2 exponent

def ofBits (bits : Nat) : Binary64 :=
  let negative := bits / signBit % 2 == 1
  let exponent := bits / exponentBit % 2048
  let fraction := bits % exponentBit
  if exponent = 2047 then (if fraction = 0 then .infinite negative else .nan)
  else if exponent = 0 then .finite negative fraction
  else .finite negative ((exponentBit + fraction) * Nat.pow 2 (exponent - 1))

end Binary64

end ElementQuery
