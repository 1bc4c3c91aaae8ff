/-
This file reads groups leniently: text that cannot be read is reported and left out.
-/

import ElementQuery.Group.Basic
import ElementQuery.Text.Blank
import ElementQuery.Warning

namespace ElementQuery.Group

/-- All warnings about groups come from this component. -/
def warn (message : String) : Warned Unit := Warned.warn "Selector" message

/-- Between brackets and quotes a character has no meaning of its own. -/
structure Nesting where
  depth : Nat := 0
  quote : Option Char := none
deriving DecidableEq, Repr

namespace Nesting

/-- Outside of all brackets and quotes. -/
def isTop (nesting : Nesting) : Bool := nesting.depth == 0 && nesting.quote.isNone

def isQuote (c : Char) : Bool := c == '\x22' || c == '\x27'

/-- A quote ends at its like, a new one begins where quotes are allowed, and brackets are counted
outside of quotes. -/
def advance (quotes : Bool) (nesting : Nesting) (c : Char) : Nesting :=
  match nesting.quote with
  | some quote => if c = quote then { nesting with quote := none } else nesting
  | none =>
      if isQuote c then (if quotes then { nesting with quote := some c } else nesting)
      else if c = '[' || c = '(' then { nesting with depth := nesting.depth + 1 }
      else if c = ']' || c = ')' then { nesting with depth := nesting.depth - 1 }
      else nesting

end Nesting

/-- A text is cut at the commas outside of brackets and quotes. -/
def splitAtCommas (nesting : Nesting) : List Char → List (List Char)
  | [] => [[]]
  | c :: rest =>
      if nesting.isTop && c == ',' then [] :: splitAtCommas nesting rest
      else (splitAtCommas (nesting.advance true c) rest).modifyHead (List.cons c)

/-- A word that is not empty is put before others. -/
def putWord (word : List Char) (words : List (List Char)) : List (List Char) :=
  if word.isEmpty then words else word :: words

/-- A group is cut into compounds and combinators. Quotes count only inside of brackets. -/
def wordsFrom (nesting : Nesting) (current : List Char) : List Char → List (List Char)
  | [] => putWord current []
  | c :: rest =>
      if nesting.isTop && Text.isBlank c then putWord current (wordsFrom nesting [] rest)
      else if nesting.isTop && (Combinator.ofChar? c).isSome then
        putWord current ([c] :: wordsFrom nesting [] rest)
      else wordsFrom (nesting.advance (nesting.depth != 0) c) (current ++ [c]) rest

def groupWords (text : List Char) : List (List Char) := wordsFrom {} [] text

def isNameChar (c : Char) : Bool := c.isAlphanum || c == '-' || c == '_' || 128 ≤ c.toNat

/-- The text is cut before the bracket that closes the given number of open ones; quotes hide
brackets, and brackets of other kinds do not count. -/
def cutAtClose? (opening closing : Char) : Nesting → List Char → Option (List Char × List Char)
  | _, [] => none
  | nesting, c :: rest =>
      let next : Option Nesting :=
        match nesting.quote with
        | some quote => some (if c = quote then { nesting with quote := none } else nesting)
        | none =>
            if Nesting.isQuote c then some { nesting with quote := some c }
            else if c = opening then some { nesting with depth := nesting.depth + 1 }
            else if c = closing then
              (if nesting.depth = 0 then none else some { nesting with depth := nesting.depth - 1 })
            else some nesting
      match next with
      | none => some ([], rest)
      | some nesting =>
          (cutAtClose? opening closing nesting rest).map fun parts => (c :: parts.1, parts.2)

/-- The text inside of the bracket that a text begins with, and the text behind it. -/
def inside? (opening closing : Char) (text : List Char) : Option (List Char × List Char) :=
  cutAtClose? opening closing {} (text.drop 1)

/-- A text between two equal quotes loses them. -/
def stripped? (quote : Char) : List Char → Option (List Char)
  | [] => none
  | c :: rest =>
      if c = quote && rest.getLast? == some quote then some rest.dropLast else none

def unquote (text : List Char) : List Char :=
  ((stripped? '\x22' text).or (stripped? '\x27' text)).getD text

/-- An argument is one of two words, the letter n, an integer or a formula; blanks do not count. -/
def Argument.ofText? (text : List Char) : Option Argument :=
  let compact := Progression.compact Text.isBlank text
  let formula :=
    if compact = "odd".toList then "2n+1".toList
    else if compact = "even".toList then "2n+0".toList
    else compact
  if formula = ['n'] then some .every
  else match Text.readInteger? 64 formula with
    | some k => some (.position k.toNat)
    | none => (Progression.ofFormula? formula).map .progression

/-- An argument that cannot be read stands for every position. -/
def Argument.read (text : List Char) : Warned Argument :=
  match Argument.ofText? text with
  | some argument => pure argument
  | none => do
      warn ("unrecognized nth argument '" ++ String.ofList text ++ "', matching every position")
      return .every

/-- The character before the equals sign may choose the operator. -/
def Operator.ofChar? : Char → Option Operator
  | '^' => some .beginning
  | '$' => some .ending
  | '*' => some .substring
  | '~' => some .substring
  | '|' => some .exact
  | _ => none

/-- The name before the equals sign loses the character of its operator. -/
def nameAndOperator (text : List Char) : List Char × Operator :=
  match text.getLast?.bind Operator.ofChar? with
  | some operator => (Text.trim text.dropLast, operator)
  | none => (text, .exact)

/-- An attribute filter without a name is left out, silently when it has no value either. -/
def AttributeFilter.read (text : List Char) : Warned (Option AttributeFilter) :=
  match Text.cutAt? ['='] text with
  | none =>
      let name := Text.trim text
      pure (if name.isEmpty then none else some ⟨Text.lower (String.ofList name), none⟩)
  | some (before, after) =>
      let (name, operator) := nameAndOperator (Text.trim before)
      if name.isEmpty then do
        warn ("attribute selector '[" ++ String.ofList text ++ "]' has no name")
        return none
      else
        let value := String.ofList (unquote (Text.trim after))
        pure (some ⟨Text.lower (String.ofList name), some (operator, value)⟩)

/-- The pseudo-classes that take no argument. -/
def plainPseudoClasses : List PseudoClass :=
  [.first .any, .last .any, .only .any, .first .sameTag, .last .sameTag, .only .sameTag, .empty,
    .enabled, .disabled, .checked]

/-- The pseudo-classes by their names; those with an argument read it. -/
def namedPseudoClass? (readNegated : List Char → Warned Compound) (name : String)
    (argument : List Char) : Option (Warned PseudoClass) :=
  if name = "nth-child" then some (PseudoClass.nth .any <$> Argument.read argument)
  else if name = "nth-of-type" then some (PseudoClass.nth .sameTag <$> Argument.read argument)
  else if name = "contains" then
    some (pure (.contains (String.ofList (unquote (Text.trim argument)))))
  else if name = "not" then some (PseudoClass.negation <$> readNegated argument)
  else (plainPseudoClasses.find? fun pseudo => pseudo.name == name).map pure

/-- An unknown pseudo-class is left out. -/
def PseudoClass.read (readNegated : List Char → Warned Compound) (name : String)
    (argument : List Char) : Warned (Option PseudoClass) :=
  match namedPseudoClass? readNegated (Text.lower name) argument with
  | some pseudo => some <$> pseudo
  | none => do
      warn ("unknown pseudo-class ':" ++ name ++ "' ignored")
      return none

/-- A fragment of a compound makes one demand, or none when it was left out. -/
inductive Fragment where
  | star
  | id (name : String)
  | hasClass (name : String)
  | attribute (filter : AttributeFilter)
  | pseudo (pseudo : PseudoClass)
  | nothing
deriving DecidableEq, Repr

/-- A later tag or id takes the place of an earlier one, and everything else is added. -/
def Step.add (step : Step) : Fragment → Step
  | .star => { step with compound := { step.compound with tag := "*" } }
  | .id name => { step with compound := { step.compound with id := some name } }
  | .hasClass name =>
      { step with compound := { step.compound with classes := step.compound.classes ++ [name] } }
  | .attribute filter =>
      { step with
        compound := { step.compound with attributes := step.compound.attributes ++ [filter] } }
  | .pseudo pseudo => { step with pseudos := step.pseudos ++ [pseudo] }
  | .nothing => step

/-- A name of at least one character stands at the beginning. -/
def leadingName? (text : List Char) : Option (String × List Char) :=
  let name := text.takeWhile isNameChar
  if name.isEmpty then none else some (String.ofList name, text.dropWhile isNameChar)

/-- A pseudo-class is a name, perhaps with an argument in parentheses. -/
def pseudoFragment? (readNegated : List Char → Warned Compound) (text : List Char) :
    Option (Warned Fragment × List Char) :=
  (leadingName? text).bind fun (name, rest) =>
    let read (argument : List Char) : Warned Fragment :=
      (fun pseudo => (pseudo.map Fragment.pseudo).getD .nothing) <$>
        PseudoClass.read readNegated name argument
    if rest.head? = some '(' then
      (inside? '(' ')' rest).map fun (argument, after) => (read argument, after)
    else some (read [], rest)

/-- The first character tells which fragment follows; nothing follows that cannot be read. -/
def fragment? (readNegated : List Char → Warned Compound) :
    List Char → Option (Warned Fragment × List Char)
  | '*' :: rest => some (pure .star, rest)
  | '#' :: rest => (leadingName? rest).map fun (name, after) => (pure (.id name), after)
  | '.' :: rest => (leadingName? rest).map fun (name, after) => (pure (.hasClass name), after)
  | '[' :: rest => (inside? '[' ']' ('[' :: rest)).map fun (filter, after) =>
      ((fun found => (found.map Fragment.attribute).getD .nothing) <$> AttributeFilter.read filter,
        after)
  | ':' :: rest => pseudoFragment? readNegated rest
  | _ => none

/-- Fragments are added to a step until none can be read; every fragment takes a character, so that
as many moves as there are characters suffice. -/
def addFragments (readNegated : List Char → Warned Compound) (word : List Char) :
    Nat → Step → List Char → Warned Step
  | 0, step, _ => pure step
  | _, step, [] => pure step
  | moves + 1, step, text =>
      match fragment? readNegated text with
      | some (fragment, rest) => do
          let fragment ← fragment
          addFragments readNegated word moves (step.add fragment) rest
      | none => do
          warn ("ignoring unreadable selector text '" ++ String.ofList text ++ "' in '" ++
            String.ofList word ++ "'")
          return step

/-- A hash inside of brackets is short for an attribute filter on the id. -/
def bracketId? (text : List Char) : Option String :=
  match text with
  | '[' :: '#' :: rest =>
      if rest.getLast? = some ']' then some (String.ofList rest.dropLast) else none
  | _ => none

/-- What is negated is one compound, and its pseudo-classes are left out. -/
def readNegation (readStep : List Char → Warned Step) (text : List Char) : Warned Compound :=
  let text := Text.trim text
  match bracketId? text with
  | some name => pure { attributes := [⟨"id", some (.exact, name)⟩] }
  | none => do
      let step ← readStep text
      if step.pseudos.isEmpty then return step.compound
      else
        warn ("pseudo-classes inside ':not(" ++ String.ofList text ++ ")' are ignored")
        return step.compound

/-- A word begins with a tag name or stands for every tag; the levels bound the depth of
negations. -/
def readStepWithin (combinator : Combinator) : Nat → List Char → Warned Step
  | 0, _ => pure { combinator }
  | levels + 1, word =>
      let tag := word.takeWhile isNameChar
      let compound : Compound :=
        if tag.isEmpty then {} else { tag := Text.lower (String.ofList tag) }
      addFragments (readNegation (readStepWithin .descendant levels)) word word.length
        { combinator, compound } (word.dropWhile isNameChar)

/-- A negation stands in parentheses, so that there are fewer levels than characters. -/
def readStep (combinator : Combinator) (word : List Char) : Warned Step :=
  readStepWithin combinator (word.length + 1) word

/-- A combinator that still waits is about to be lost. -/
def noteConsecutive (source : String) (pending : Option Combinator) : Warned Unit :=
  if pending.isSome then warn ("consecutive combinators in '" ++ source ++ "', keeping the last")
  else pure ()

/-- A combinator waits for the compound behind it; of several in a row the last is kept. -/
def readWords (source : String) :
    Option Combinator → List (List Char) → Warned (List Step × Option Combinator)
  | pending, [] => pure ([], pending)
  | pending, word :: rest =>
      match Combinator.ofWord? word with
      | some combinator => do
          noteConsecutive source pending
          readWords source (some combinator) rest
      | none => do
          let step ← readStep (pending.getD .descendant) word
          let (steps, trailing) ← readWords source none rest
          return (step :: steps, trailing)

/-- The words of a group, joined by blanks, are its normalized text. -/
def normalized (words : List (List Char)) : String :=
  String.intercalate " " (words.map String.ofList)

def ofWords (words : List (List Char)) : Warned Group := do
  let source := normalized words
  let (steps, trailing) ← readWords source none words
  return { source, steps, trailing }

/-- Empty groups and repetitions of earlier ones are left out. -/
def readGroups (known : List String) : List (List Char) → Warned (List Group)
  | [] => pure []
  | text :: rest =>
      let words := groupWords text
      let source := normalized words
      if source == "" || known.contains source then readGroups known rest
      else do
        let group ← ofWords words
        let groups ← readGroups (known ++ [source]) rest
        return group :: groups

/-- Every text is a list of groups. -/
def parse (text : String) : Warned (List Group) :=
  readGroups [] (splitAtCommas {} (Text.trim text.toList))

end ElementQuery.Group
