/-
This file reads numbers that are written in decimal digits with at most one point.
-/

import ElementQuery.Number.Binary64
import ElementQuery.Text.Blank

namespace ElementQuery.Binary64

/-- The number that a run of digits stands for. -/
def digitsValue (digits : List Char) : Nat :=
  digits.foldl (fun value c => 10 * value + (c.toNat - '0'.toNat)) 0

/-- There is a digit before or after the point, and nothing else. -/
def ofUnsigned? (text : List Char) : Option Binary64 :=
  let whole := text.takeWhile Char.isDigit
  match text.dropWhile Char.isDigit with
  | [] => if whole.isEmpty then none else some (ofDecimal (digitsValue whole) 0)
  | c :: fraction =>
      if c = '.' && fraction.all Char.isDigit && !(whole ++ fraction).isEmpty then
        some (ofDecimal (digitsValue (whole ++ fraction)) fraction.length)
      else none

/-- Blanks may stand around a number, and a minus sign directly before it; every other text is no
number. -/
def ofText (text : String) : Binary64 :=
  match Text.trim text.toList with
  | '-' :: rest => ((ofUnsigned? rest).map neg).getD nan
  | rest => (ofUnsigned? rest).getD nan

end ElementQuery.Binary64
