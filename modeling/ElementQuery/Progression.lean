/-
This file holds arithmetic progressions of positions and reads the texts that denote them.
-/

import ElementQuery.Text.Integer
import ElementQuery.Text.Search

namespace ElementQuery

/-- A progression holds the offset and every number that lies a whole count of steps from it. -/
structure Progression where
  step : Int
  offset : Int
deriving DecidableEq, Repr

namespace Progression

/-- Positions are counted with 63 bits. -/
def positionLimit : Nat := Nat.pow 2 63

/-- A position is in a progression when the steps from the offset to it are a natural number. -/
def contains (progression : Progression) (position : Nat) : Bool :=
  if positionLimit ≤ position then false
  else if progression.step = 0 then (position : Int) == progression.offset
  else
    let distance := (position : Int) - progression.offset
    distance.tmod progression.step == 0 && decide (0 ≤ distance.tdiv progression.step)

def odd : Progression := ⟨2, 1⟩

def even : Progression := ⟨2, 0⟩

/-- Before the letter stands the step; its sign alone stands for one step. -/
def step? : List Char → Option Int
  | [] => some 1
  | ['+'] => some 1
  | ['-'] => some (-1)
  | text => Text.readInteger? 32 text

/-- After the letter stands the offset with its sign, or nothing for zero. -/
def offset? : List Char → Option Int
  | [] => some 0
  | '+' :: rest => Text.readInteger? 32 rest
  | '-' :: rest => Text.readInteger? 32 ('-' :: rest)
  | _ => none

/-- The first letter n stands between the step and the offset. -/
def ofFormula? (text : List Char) : Option Progression :=
  (Text.cutAt? ['n'] text).bind fun parts =>
    (step? parts.1).bind fun step => (offset? parts.2).map fun offset => ⟨step, offset⟩

/-- Characters of a class are left out, and the others become small letters. -/
def compact (left : Char → Bool) (text : List Char) : List Char :=
  (text.filter fun c => !left c).map Char.toLower

end Progression

end ElementQuery
