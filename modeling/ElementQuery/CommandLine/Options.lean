/-
This file reads the arguments of the command line.
-/

import ElementQuery.Text.Search

namespace ElementQuery.CommandLine

/-- A choice is a switch or takes a value. -/
inductive Choice where
  | html
  | backend
  | scope
  | first
  | explain
  | json
  | quiet
deriving DecidableEq, Repr

namespace Choice

def takesValue : Choice → Bool
  | .html | .backend | .scope => true
  | _ => false

def name : Choice → String
  | .html => "html"
  | .backend => "backend"
  | .scope => "scope"
  | .first => "first"
  | .explain => "explain"
  | .json => "json"
  | .quiet => "quiet"

def all : List Choice := [.html, .backend, .scope, .first, .explain, .json, .quiet]

def ofName? (name : String) : Option Choice := all.find? fun choice => choice.name == name

/-- Two choices have a short name of one letter. -/
def ofLetter? (letter : Char) : Option Choice :=
  if letter = 'b' then some .backend else if letter = 'q' then some .quiet else none

end Choice

/-- A switch is given with an empty value. -/
abbrev Given := Choice × String

/-- One argument ends the choices, is an operand, or gives choices of which the last may still wait
for its value. -/
inductive Word where
  | separator
  | operand (text : String)
  | choices (given : List Given) (waiting : Option Choice)
  | unknown
deriving DecidableEq, Repr

/-- A long name may carry its value behind an equals sign; a switch takes none. -/
def readLong (text : List Char) : Word :=
  let parts := (Text.cutAt? ['='] text).getD (text, [])
  let attached := text.contains '='
  match Choice.ofName? (String.ofList parts.1) with
  | none => .unknown
  | some choice =>
      match choice.takesValue, attached with
      | true, true => .choices [(choice, String.ofList parts.2)] none
      | true, false => .choices [] (some choice)
      | false, true => .unknown
      | false, false => .choices [(choice, "")] none

/-- Letters may stand together; the first that takes a value takes the rest, perhaps behind an
equals sign. -/
def readShort : List Char → Word
  | [] => .choices [] none
  | letter :: rest =>
      match Choice.ofLetter? letter with
      | none => .unknown
      | some choice =>
          if choice.takesValue then
            match rest with
            | [] => .choices [] (some choice)
            | '=' :: value => .choices [(choice, String.ofList value)] none
            | value => .choices [(choice, String.ofList value)] none
          else match readShort rest with
            | .choices given waiting => .choices ((choice, "") :: given) waiting
            | _ => .unknown

/-- A hyphen alone is an operand. -/
def readWord (text : String) : Word :=
  match text.toList with
  | ['-', '-'] => .separator
  | '-' :: '-' :: name => readLong name
  | '-' :: letter :: rest => readShort (letter :: rest)
  | _ => .operand text

/-- A value that stands alone must not look like a choice. -/
def isValue (text : String) : Bool :=
  match readWord text with
  | .operand _ => true
  | _ => false

/-- The arguments are choices and operands; behind a separator stand operands only. -/
def readAll : List String → Option (List Given × List String)
  | [] => some ([], [])
  | text :: rest =>
      match readWord text with
      | .separator => some ([], rest)
      | .operand operand => (readAll rest).map fun read => (read.1, operand :: read.2)
      | .unknown => none
      | .choices given none => (readAll rest).map fun read => (given ++ read.1, read.2)
      | .choices given (some choice) =>
          match rest with
          | [] => none
          | value :: more =>
              if isValue value then
                (readAll more).map fun read => (given ++ (choice, value) :: read.1, read.2)
              else none

/-- What a user has chosen. -/
structure Options where
  query : String
  file : Option String := none
  html : Option String := none
  backend : String := "auto"
  scope : Option String := none
  first : Bool := false
  explain : Bool := false
  json : Bool := false
  quiet : Bool := false
deriving DecidableEq, Repr

/-- The value that was given for a choice. -/
def valueOf? (given : List Given) (choice : Choice) : Option String :=
  (given.find? fun entry => entry.1 == choice).map Prod.snd

def ofParts (given : List Given) (query : String) (file : Option String) : Options where
  query := query
  file := file
  html := valueOf? given .html
  backend := (valueOf? given .backend).getD "auto"
  scope := valueOf? given .scope
  first := (valueOf? given .first).isSome
  explain := (valueOf? given .explain).isSome
  json := (valueOf? given .json).isSome
  quiet := (valueOf? given .quiet).isSome

/-- A choice is made at most once, and the operands are a query and perhaps the name of a file. -/
def readOptions? (arguments : List String) : Option Options :=
  (readAll arguments).bind fun (given, operands) =>
    if (given.map Prod.fst).Nodup then
      match operands with
      | [query] => some (ofParts given query none)
      | [query, file] => if file = "" then none else some (ofParts given query (some file))
      | _ => none
    else none

end ElementQuery.CommandLine
