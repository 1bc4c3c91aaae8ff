/-
This file holds JSON values and writes them over several lines.
-/

namespace ElementQuery

/-- The fields of an object keep their order. -/
inductive JsonValue where
  | null
  | integer (value : Int)
  | text (value : String)
  | list (values : List JsonValue)
  | object (fields : List (String × JsonValue))
deriving Repr

namespace JsonValue

/-- An absent value is null. -/
def orNull {A : Type} (encode : A → JsonValue) : Option A → JsonValue
  | some value => encode value
  | none => .null

def ofTexts (values : List String) : JsonValue := .list (values.map .text)

/-- A code point as four hexadecimal digits. -/
def fourDigits (c : Char) : List Char :=
  let digits := Nat.toDigits 16 c.toNat
  List.replicate (4 - digits.length) '0' ++ digits

/-- Quotes, backslashes and controls are escaped, and everything else is written as it is. -/
def escapeChar (c : Char) : List Char :=
  if c = '\x22' || c = '\\' then ['\\', c]
  else if c = '\x08' then ['\\', 'b']
  else if c = '\x0c' then ['\\', 'f']
  else if c = '\n' then ['\\', 'n']
  else if c = '\r' then ['\\', 'r']
  else if c = '\t' then ['\\', 't']
  else if c.toNat < 32 then ['\\', 'u'] ++ fourDigits c
  else [c]

def quote (text : String) : List Char :=
  '\x22' :: text.toList.flatMap escapeChar ++ ['\x22']

/-- A line begins with two blanks for every level. -/
def newLine (level : Nat) : List Char := '\n' :: List.replicate (2 * level) ' '

/-- Members stand on lines of their own between brackets; without members the brackets touch. -/
def block (opening closing : Char) (level : Nat) : List (List Char) → List Char
  | [] => [opening, closing]
  | members =>
      opening :: [','].intercalate (members.map fun member => newLine (level + 1) ++ member) ++
        newLine level ++ [closing]

mutual

/-- A value is written at a level of indentation. -/
def write (level : Nat) : JsonValue → List Char
  | .null => "null".toList
  | .integer value => (toString value).toList
  | .text value => quote value
  | .list values => block '[' ']' level (writeAll (level + 1) values)
  | .object fields => block '\x7b' '\x7d' level (writeFields (level + 1) fields)

def writeAll (level : Nat) : List JsonValue → List (List Char)
  | [] => []
  | value :: rest => write level value :: writeAll level rest

def writeFields (level : Nat) : List (String × JsonValue) → List (List Char)
  | [] => []
  | (name, value) :: rest =>
      (quote name ++ [':', ' '] ++ write level value) :: writeFields level rest

end

def pretty (value : JsonValue) : String := String.ofList (write 0 value)

end JsonValue

end ElementQuery
