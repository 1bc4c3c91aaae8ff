/-
This file reads integers that are written in digits.
-/

namespace ElementQuery.Text

/-- The value of a digit, with letters for the digits above nine. -/
def digitValue? (base : Nat) (c : Char) : Option Nat :=
  let value? :=
    if c.isDigit then some (c.toNat - '0'.toNat)
    else if 'a' ≤ c && c ≤ 'z' then some (c.toNat - 'a'.toNat + 10)
    else if 'A' ≤ c && c ≤ 'Z' then some (c.toNat - 'A'.toNat + 10)
    else none
  value?.filter (· < base)

/-- The digits after a value are appended to it; a character that is no digit spoils the text. -/
def appendDigits? (base : Nat) : Nat → List Char → Option Nat
  | value, [] => some value
  | value, c :: rest =>
      (digitValue? base c).bind fun digit => appendDigits? base (base * value + digit) rest

/-- A natural number is written as at least one digit. -/
def readDigits? (base : Nat) (text : List Char) : Option Nat :=
  if text.isEmpty then none else appendDigits? base 0 text

/-- A natural number may be written with a plus sign, and has to be at most the given limit. -/
def readNatural? (base limit : Nat) (text : List Char) : Option Nat :=
  let digits := match text with
    | '+' :: rest => rest
    | _ => text
  (readDigits? base digits).filter (· ≤ limit)

/-- An integer may be written with one sign, and has to fit into the given number of bits. -/
def readInteger? (bits : Nat) (text : List Char) : Option Int :=
  let value? : Option Int := match text with
    | '+' :: rest => (readDigits? 10 rest).map Int.ofNat
    | '-' :: rest => (readDigits? 10 rest).map fun magnitude => -(magnitude : Int)
    | _ => (readDigits? 10 text).map Int.ofNat
  let bound := Nat.pow 2 (bits - 1)
  value?.filter fun value => -(bound : Int) ≤ value ∧ value < bound

end ElementQuery.Text
