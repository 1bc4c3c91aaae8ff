/-
This file reads selectors strictly: the first fault in the text refuses the whole list.
-/

import ElementQuery.Selector.Basic
import ElementQuery.Text.Blank
import ElementQuery.Text.Bytes

namespace ElementQuery.Selector

/-- While a text is read, a fault is noted by the text that is left at its place. -/
inductive Fault where
  | unexpected (rest : List Char)
  | danglingCombinator
  | unknownPseudoClass (name : String)
  | invalidProgression (text : String)
deriving DecidableEq, Repr

/-- The offset of a fault is the number of bytes before the text that is left. -/
def Fault.toError (whole : List Char) : Fault → Error
  | .unexpected [] => .unexpectedEnd
  | .unexpected (found :: rest) =>
      .unexpectedCharacter found (Text.byteLength whole - Text.byteLength (found :: rest))
  | .danglingCombinator => .danglingCombinator
  | .unknownPseudoClass name => .unknownPseudoClass name
  | .invalidProgression text => .invalidProgression text

/-- A name begins with a letter, a hyphen, an underscore or a character beyond ASCII. -/
def isNameStart (c : Char) : Bool := c.isAlpha || c == '_' || c == '-' || 128 ≤ c.toNat

def isNameChar (c : Char) : Bool := isNameStart c || c.isDigit

def skipBlanks (text : List Char) : List Char := text.dropWhile Text.isAsciiBlank

/-- A name of an id may begin with a digit. -/
def readName (text : List Char) : Except Fault (String × List Char) :=
  let name := text.takeWhile isNameChar
  if name.isEmpty then .error (.unexpected text)
  else .ok (String.ofList name, text.dropWhile isNameChar)

def readIdentifier (text : List Char) : Except Fault (String × List Char) :=
  if text.head?.any isNameStart then readName text else .error (.unexpected text)

/-- A given character is required. -/
def expect (c : Char) (text : List Char) : Except Fault (List Char) :=
  if text.head? = some c then .ok (text.drop 1) else .error (.unexpected text)

/-- A quoted value goes on up to the same quote. -/
def readQuoted (quote : Char) (text : List Char) : Except Fault (String × List Char) :=
  match text.dropWhile (· != quote) with
  | [] => .error (.unexpected [])
  | _ :: rest => .ok (String.ofList (text.takeWhile (· != quote)), rest)

def readValue : List Char → Except Fault (String × List Char)
  | '\x22' :: rest => readQuoted '\x22' rest
  | '\x27' :: rest => readQuoted '\x27' rest
  | text => readIdentifier text

/-- The character before the equals sign chooses the test. -/
def comparison (name : String) : Char → Option (String → AttributeTest)
  | '~' => some (.hasWord name)
  | '|' => some (.hasLanguage name)
  | '^' => some (.beginsWith name)
  | '$' => some (.endsWith name)
  | '*' => some (.contains name)
  | _ => none

/-- After the operator stands a value, and then the closing bracket. -/
def readComparison (test : String → AttributeTest) (text : List Char) :
    Except Fault (AttributeTest × List Char) := do
  let rest ← expect '=' text
  let (value, rest) ← readValue (skipBlanks rest)
  let rest ← expect ']' (skipBlanks rest)
  return (test value, rest)

/-- After the opening bracket stands the name of an attribute. -/
def readAttribute (text : List Char) : Except Fault (AttributeTest × List Char) := do
  let (name, rest) ← readIdentifier (skipBlanks text)
  let name := Text.lower name
  match skipBlanks rest with
  | [] => .error (.unexpected [])
  | c :: rest =>
      if c = ']' then return (.exists name, rest)
      else if c = '=' then readComparison (.equals name) (c :: rest)
      else match comparison name c with
        | some test => readComparison test rest
        | none => .error (.unexpected (c :: rest))

/-- The pseudo-classes without an argument. -/
def plainPseudoClasses : List (String × PseudoClass) :=
  [("root", .documentElement), ("first-child", .first .any), ("last-child", .last .any),
    ("only-child", .only .any), ("first-of-type", .first .sameTag),
    ("last-of-type", .last .sameTag), ("only-of-type", .only .sameTag), ("empty", .empty),
    ("link", .link), ("any-link", .link), ("checked", .checked), ("disabled", .disabled),
    ("enabled", .enabled)]

/-- These states come from the user, and a document at rest does not show them. -/
def userStates : List String :=
  ["hover", "active", "focus", "focus-within", "focus-visible", "visited", "target"]

/-- The pseudo-classes whose argument is a progression. -/
def countingPseudoClasses : List (String × Side × Kin) :=
  [("nth-child", .front, .any), ("nth-last-child", .back, .any),
    ("nth-of-type", .front, .sameTag), ("nth-last-of-type", .back, .sameTag)]

/-- A progression is one of two words, an integer or a formula; ASCII blanks do not count. -/
def progression? (text : List Char) : Option Progression :=
  let compact := Progression.compact Text.isAsciiBlank text
  if compact = "odd".toList then some .odd
  else if compact = "even".toList then some .even
  else if compact.contains 'n' then Progression.ofFormula? compact
  else (Text.readInteger? 32 compact).map fun offset => ⟨0, offset⟩

/-- The argument of a counting pseudo-class goes on up to the closing parenthesis. -/
def readProgression (text : List Char) : Except Fault (Progression × List Char) :=
  let raw := text.takeWhile (· != ')')
  match progression? raw with
  | some progression => .ok (progression, text.dropWhile (· != ')'))
  | none => .error (.invalidProgression (String.ofList (Text.trim raw)))

/-- A name before a parenthesis chooses how the argument is read. -/
def readArgument (readNegated : List Char → Except Fault (List Compound × List Char))
    (name : String) (text : List Char) : Except Fault (Simple × List Char) :=
  if name = "not" then do
    let (compounds, rest) ← readNegated text
    return (.negation compounds, rest)
  else match countingPseudoClasses.find? fun entry => entry.1 == name with
    | some (_, side, kin) => do
        let (progression, rest) ← readProgression text
        return (.pseudo (.nth side kin progression), rest)
    | none => .error (.unknownPseudoClass name)

/-- A name without a parenthesis is a pseudo-class or a state of the user. -/
def plainPseudo (name : String) : Except Fault Simple :=
  match plainPseudoClasses.find? fun entry => entry.1 == name with
  | some entry => .ok (.pseudo entry.2)
  | none =>
      if userStates.contains name then .ok .never else .error (.unknownPseudoClass name)

/-- After one colon stands a pseudo-class, and after two a pseudo-element, which no element is. -/
def readPseudo (readNegated : List Char → Except Fault (List Compound × List Char))
    (text : List Char) : Except Fault (Simple × List Char) := do
  if text.head? = some ':' then
    let (_, rest) ← readIdentifier (text.drop 1)
    return (.never, rest)
  else
    let (name, rest) ← readIdentifier text
    let name := Text.lower name
    if rest.head? = some '(' then
      let (simple, rest) ← readArgument readNegated name (skipBlanks (rest.drop 1))
      let rest ← expect ')' (skipBlanks rest)
      return (simple, rest)
    else
      let simple ← plainPseudo name
      return (simple, rest)

/-- The first character tells which simple selector follows, if any does. -/
def readSimple? (readNegated : List Char → Except Fault (List Compound × List Char)) :
    List Char → Except Fault (Option (Simple × List Char))
  | '#' :: rest => do
      let (name, rest) ← readName rest
      return some (.id name, rest)
  | '.' :: rest => do
      let (name, rest) ← readIdentifier rest
      return some (.hasClass name, rest)
  | '[' :: rest => do
      let (test, rest) ← readAttribute rest
      return some (.attribute test, rest)
  | ':' :: rest => do
      let (simple, rest) ← readPseudo readNegated rest
      return some (simple, rest)
  | _ => .ok none

/-- A compound may begin with a tag name or a star. -/
def readTag (text : List Char) : Except Fault (Compound × List Char) :=
  match text with
  | '*' :: rest => .ok ([.universal], rest)
  | c :: _ =>
      if isNameStart c then do
        let (name, rest) ← readIdentifier text
        return ([.tag (Text.lower name)], rest)
      else .ok ([], text)
  | [] => .ok ([], text)

/-- A compound is a tag with simple selectors after it, and it is not empty. -/
def readCompoundWith (readSimples : List Char → Except Fault (Compound × List Char))
    (text : List Char) : Except Fault (Compound × List Char) := do
  let (tag, rest) ← readTag text
  let (simples, rest) ← readSimples rest
  if (tag ++ simples).isEmpty then .error (.unexpected rest) else return (tag ++ simples, rest)

/-- Compounds inside a negation stand between commas; the steps bound their number. -/
def readCompounds (readOne : List Char → Except Fault (Compound × List Char)) :
    Nat → List Char → Except Fault (List Compound × List Char)
  | 0, text => .error (.unexpected text)
  | steps + 1, text => do
      let (first, rest) ← readOne text
      match skipBlanks rest with
      | ',' :: more =>
          let (others, rest) ← readCompounds readOne steps (skipBlanks more)
          return (first :: others, rest)
      | rest => return ([first], rest)

/-- Simple selectors are read while one follows; every one of them takes a character, so that as
many steps as there are characters suffice. -/
def readSimples : Nat → List Char → Except Fault (Compound × List Char)
  | 0, text => .ok ([], text)
  | steps + 1, text => do
      let negated := readCompounds (readCompoundWith (readSimples steps)) steps
      match ← readSimple? negated text with
      | none => return ([], text)
      | some (simple, rest) =>
          let (others, rest) ← readSimples steps rest
          return (simple :: others, rest)

def readCompound (text : List Char) : Except Fault (Compound × List Char) :=
  readCompoundWith (readSimples (text.length + 1)) text

/-- A combinator that is written out needs a compound on its right. -/
def afterCombinator (text : List Char) : Except Fault (List Char) :=
  match skipBlanks text with
  | [] => .error .danglingCombinator
  | ',' :: _ => .error .danglingCombinator
  | rest => .ok rest

/-- After a compound stands the end, a comma, or a combinator with the text behind it. A blank is a
combinator when no other follows it. -/
def readCombinator? (text : List Char) : Except Fault (Option (Combinator × List Char)) :=
  match skipBlanks text with
  | [] => .ok none
  | ',' :: _ => .ok none
  | '>' :: rest => (afterCombinator rest).map fun rest => some (.child, rest)
  | '+' :: rest => (afterCombinator rest).map fun rest => some (.nextSibling, rest)
  | '~' :: rest => (afterCombinator rest).map fun rest => some (.laterSibling, rest)
  | rest =>
      if text.head?.any Text.isAsciiBlank then .ok (some (.descendant, rest))
      else .error (.unexpected rest)

/-- Every further compound becomes the subject. -/
def readChain : Nat → Complex → List Char → Except Fault (Complex × List Char)
  | 0, complex, text => .ok (complex, text)
  | steps + 1, complex, text => do
      match ← readCombinator? text with
      | none => return (complex, skipBlanks text)
      | some (combinator, rest) =>
          let (compound, rest) ← readCompound rest
          readChain steps (complex.extend combinator compound) rest

def readComplex (text : List Char) : Except Fault (Complex × List Char) := do
  let (subject, rest) ← readCompound (skipBlanks text)
  readChain (rest.length + 1) { subject } rest

/-- Complex selectors stand between commas, and nothing is left behind the last one. -/
def readComplexes : Nat → List Char → Except Fault (List Complex)
  | 0, text => .error (.unexpected text)
  | steps + 1, text => do
      let (first, rest) ← readComplex text
      match rest with
      | [] => return [first]
      | ',' :: more =>
          let others ← readComplexes steps more
          return first :: others
      | rest => .error (.unexpected rest)

/-- A list of selectors is not blank and has no fault. -/
def parse (text : String) : Except Error (List Complex) :=
  let whole := text.toList
  if (Text.trim whole).isEmpty then .error .empty
  else (readComplexes (whole.length + 1) whole).mapError (Fault.toError whole)

end ElementQuery.Selector
