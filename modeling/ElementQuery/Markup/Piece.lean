/-
This file cuts markup into pieces: runs of text, comments and tags. Every input is cut, and what is
amiss in a piece becomes a warning.
-/

import ElementQuery.Markup.Writer
import ElementQuery.Text.Blank
import ElementQuery.Warning

namespace ElementQuery.Markup

/-- A start tag carries the content that is not read as markup, if its element has such content. -/
inductive Piece where
  | text (data : List Char)
  | comment (data : List Char)
  | skipped
  | startTag (tag : String) (attributes : List (String × String)) (closed : Bool)
      (raw : Option (List Char))
  | endTag (tag : String)
deriving DecidableEq, Repr

/-- All warnings about markup come from this component. -/
def warn (message : String) : Warned Unit := Warned.warn "Markup" message

/-- The content of these elements is not read as markup. -/
def rawTags : List String := ["script", "style"]

/-- The text before and after the first occurrence of a terminator, whatever its case. -/
def cutPast? (terminator : List Char) : List Char → Option (List Char × List Char)
  | [] => none
  | c :: rest =>
      if Text.beginsWith terminator (c :: rest) then
        some ([], (c :: rest).drop terminator.length)
      else (cutPast? terminator rest).map fun parts => (c :: parts.1, parts.2)

/-- Without its terminator a piece takes the whole rest. -/
def skipPast (terminator : String) (text : List Char) : Warned (List Char × List Char) :=
  match cutPast? terminator.toList text with
  | some parts => pure parts
  | none => do
      warn ("unterminated construct, expected '" ++ terminator ++ "'")
      return (text, [])

/-- A tag name goes on up to a blank, a closing bracket or a slash. -/
def inTagName (c : Char) : Bool := !(Text.isBlank c || c == '>' || c == '/')

/-- An attribute name ends at an equals sign, too. -/
def inAttributeName (c : Char) : Bool := inTagName c && c != '='

/-- A value without quotes goes on up to a blank or a closing bracket. -/
def inBareValue (c : Char) : Bool := !(Text.isBlank c || c == '>')

/-- Capitals in names become small letters. -/
def lowerName (name : List Char) : String := String.ofList (name.map Char.toLower)

/-- A value between quotes goes on up to the same quote. -/
def quotedValue (quote : Char) (text : List Char) : String × List Char :=
  (String.ofList (decode (text.takeWhile (· != quote))), (text.dropWhile (· != quote)).drop 1)

def readValue : List Char → String × List Char
  | '\x22' :: rest => quotedValue '\x22' rest
  | '\x27' :: rest => quotedValue '\x27' rest
  | text => (String.ofList (decode (text.takeWhile inBareValue)), text.dropWhile inBareValue)

/-- An attribute without an equals sign has the empty value. -/
def readAttribute (text : List Char) : (String × String) × List Char :=
  let name := lowerName (text.takeWhile inAttributeName)
  match (text.dropWhile inAttributeName).dropWhile Text.isBlank with
  | '=' :: rest =>
      let value := readValue (rest.dropWhile Text.isBlank)
      ((name, value.1), value.2)
  | rest => ((name, ""), rest)

theorem readValue_le (text : List Char) : (readValue text).2.length ≤ text.length := by
  unfold readValue
  split
  · rename_i rest
    have := Text.length_dropWhile_le (· != '\x22') rest
    simp only [quotedValue, List.length_drop, List.length_cons]
    omega
  · rename_i rest
    have := Text.length_dropWhile_le (· != '\x27') rest
    simp only [quotedValue, List.length_drop, List.length_cons]
    omega
  · exact Text.length_dropWhile_le _ _

/-- Reading an attribute takes at least one character. -/
theorem readAttribute_shorter {c : Char} {rest : List Char} (notBlank : Text.isBlank c = false)
    (notClose : c ≠ '>') (notSlash : c ≠ '/') :
    (readAttribute (c :: rest)).2.length < (c :: rest).length := by
  have shorter : c ≠ '=' →
      (((c :: rest).dropWhile inAttributeName).dropWhile Text.isBlank).length ≤ rest.length := by
    intro notEquals
    have kept : inAttributeName c = true := by
      simp [inAttributeName, inTagName, notBlank, notClose, notSlash, notEquals]
    rw [List.dropWhile_cons_of_pos kept]
    exact Nat.le_trans (Text.length_dropWhile_le _ _) (Text.length_dropWhile_le _ _)
  unfold readAttribute
  dsimp only
  split
  · rename_i after shape
    have value := Nat.le_trans (readValue_le (after.dropWhile Text.isBlank))
      (Text.length_dropWhile_le Text.isBlank after)
    by_cases isEquals : c = '='
    · subst isEquals
      rw [List.dropWhile_cons_of_neg (by decide), List.dropWhile_cons_of_neg (by decide)] at shape
      simp only [List.cons.injEq, true_and] at shape
      subst shape
      simp only [List.length_cons]
      omega
    · have := shorter isEquals
      rw [shape] at this
      simp only [List.length_cons] at this ⊢
      omega
  · rename_i noEquals
    by_cases isEquals : c = '='
    · subst isEquals
      rw [List.dropWhile_cons_of_neg (by decide), List.dropWhile_cons_of_neg (by decide)]
        at noEquals
      exact absurd rfl (noEquals rest)
    · have := shorter isEquals
      simp only [List.length_cons]
      omega

/-- After blanks, the rest of an attribute list is shorter once an attribute is read. -/
theorem readAttribute_afterBlanks {text rest : List Char} {c : Char}
    (shape : text.dropWhile Text.isBlank = c :: rest) (notClose : c ≠ '>')
    (notSlash : c ≠ '/') :
    (readAttribute (c :: rest)).2.length < text.length := by
  have whole := Text.length_dropWhile_le Text.isBlank text
  have notBlank : Text.isBlank c = false := by
    have := List.head?_dropWhile_not Text.isBlank text
    simpa [shape] using this
  have : (readAttribute (c :: rest)).2.length < (c :: rest).length :=
    readAttribute_shorter notBlank notClose notSlash
  rw [shape] at whole
  omega

/-- A name is listed when it has been found before. -/
def listed (found : List (String × String)) (name : String) : Bool :=
  (found.map Prod.fst).contains name

/-- Attributes are read up to the end of the tag; of two with one name the first is kept. -/
def readAttributes (found : List (String × String)) (text : List Char) :
    Warned (List (String × String) × List Char) :=
  match _ : text.dropWhile Text.isBlank with
  | [] => pure (found, [])
  | c :: rest =>
      if _ : c = '>' then pure (found, c :: rest)
      else if _ : c = '/' then
        if rest.head? = some '>' then pure (found, c :: rest) else readAttributes found rest
      else
        let entry := (readAttribute (c :: rest)).1
        if listed found entry.1 then do
          warn ("duplicate attribute '" ++ entry.1 ++ "' dropped")
          readAttributes found (readAttribute (c :: rest)).2
        else readAttributes (found ++ [entry]) (readAttribute (c :: rest)).2
termination_by text.length
decreasing_by
  · rename_i shape _ _ _
    have := Text.length_dropWhile_le Text.isBlank text
    rw [shape] at this
    exact this
  · exact readAttribute_afterBlanks ‹_› ‹_› ‹_›
  · exact readAttribute_afterBlanks ‹_› ‹_› ‹_›

/-- The content of a raw element goes on up to its end tag. -/
def readRaw (tag : String) (text : List Char) : Warned (List Char × List Char) := do
  let parts ← skipPast ("</" ++ tag) text
  let close ← skipPast ">" parts.2
  return (parts.1, close.2)

/-- Only an open raw element has raw content. -/
def readContent (tag : String) (closed : Bool) (text : List Char) :
    Warned (Option (List Char) × List Char) :=
  if !closed && rawTags.contains tag then do
    let raw ← readRaw tag text
    return (some raw.1, raw.2)
  else return (none, text)

/-- A start tag has to end with a closing bracket. -/
def expectClose (tag : String) (text : List Char) : Warned Unit :=
  if text.head? = some '>' then return () else warn ("unterminated start tag <" ++ tag ++ ">")

/-- A start tag is its name, its attributes, perhaps a slash, and a closing bracket. -/
def readStartTag (text : List Char) : Warned (Piece × List Char) := do
  let tag := lowerName (text.takeWhile inTagName)
  let list ← readAttributes [] (text.dropWhile inTagName)
  let closed := list.2.head? == some '/'
  let close := if closed then list.2.drop 1 else list.2
  expectClose tag close
  let content ← readContent tag closed (close.drop 1)
  return (.startTag tag list.1 closed content.1, content.2)

/-- What stands between the name of an end tag and its closing bracket is skipped. -/
def readEndTag (text : List Char) : Warned (Piece × List Char) := do
  let (_, rest) ← skipPast ">" (text.dropWhile inTagName)
  return (.endTag (lowerName (text.takeWhile inTagName)), rest)

/-- Declarations other than comments are skipped. -/
def readDeclaration (text : List Char) : Warned (Piece × List Char) := do
  if "!--".toList.isPrefixOf text then
    let (data, rest) ← skipPast "-->" (text.drop 3)
    return (.comment data, rest)
  else
    let (_, rest) ← skipPast ">" text
    return (.skipped, rest)

/-- The character after an opening bracket tells what it opens. -/
def readMarkup (text : List Char) : Warned (Piece × List Char) :=
  match text with
  | '!' :: _ => readDeclaration text
  | '?' :: _ => do
      let (_, rest) ← skipPast ">" text
      return (.skipped, rest)
  | '/' :: rest => readEndTag rest
  | _ => readStartTag text

/-- An opening bracket opens markup only before these characters. -/
def opensMarkup : List Char → Bool
  | '<' :: c :: _ => c == '!' || c == '?' || c == '/' || c.isAlpha
  | _ => false

/-- Text goes on until markup is opened. -/
def textRun : List Char → List Char × List Char
  | [] => ([], [])
  | c :: rest =>
      if opensMarkup (c :: rest) then ([], c :: rest)
      else (c :: (textRun rest).1, (textRun rest).2)

theorem textRun_append (text : List Char) : (textRun text).1 ++ (textRun text).2 = text := by
  induction text with
  | nil => rfl
  | cons c rest inductionHypothesis =>
      rw [textRun]
      split <;> simp_all

theorem cutPast?_le {terminator text : List Char} {parts : List Char × List Char}
    (cut : cutPast? terminator text = some parts) : parts.2.length ≤ text.length := by
  induction text generalizing parts with
  | nil => simp [cutPast?] at cut
  | cons c rest inductionHypothesis =>
      rw [cutPast?] at cut
      split at cut
      · simp only [Option.some.injEq] at cut
        simp [← cut]
      · obtain ⟨found, inner, rfl⟩ := Option.map_eq_some_iff.1 cut
        have := inductionHypothesis inner
        simp only [List.length_cons]
        omega

theorem skipPast_le (terminator : String) (text : List Char) :
    (skipPast terminator text).value.2.length ≤ text.length := by
  unfold skipPast
  split
  · rename_i parts cut
    exact cutPast?_le cut
  · simp

theorem readAttributes_le (found : List (String × String)) (text : List Char) :
    (readAttributes found text).value.2.length ≤ text.length := by
  fun_induction readAttributes found text with
  | case1 => simp
  | case2 found text rest shape =>
      have := Text.length_dropWhile_le Text.isBlank text
      simpa [shape] using this
  | case3 found text rest _ shape =>
      have := Text.length_dropWhile_le Text.isBlank text
      simpa [shape] using this
  | case4 found text rest _ shape _ inductionHypothesis =>
      have := Text.length_dropWhile_le Text.isBlank text
      simp only [shape, List.length_cons] at this
      omega
  | case5 found text c rest shape notClose notSlash entry again inductionHypothesis =>
      have := readAttribute_afterBlanks shape notClose notSlash
      simp only [entry, Warned.bind_value] at *
      omega
  | case6 found text c rest shape notClose notSlash entry fresh inductionHypothesis =>
      have := readAttribute_afterBlanks shape notClose notSlash
      omega

theorem readRaw_le (tag : String) (text : List Char) :
    (readRaw tag text).value.2.length ≤ text.length :=
  Nat.le_trans (skipPast_le _ _) (skipPast_le _ _)

theorem readContent_le (tag : String) (closed : Bool) (text : List Char) :
    (readContent tag closed text).value.2.length ≤ text.length := by
  unfold readContent
  split
  · exact readRaw_le tag text
  · exact Nat.le_refl _

theorem readStartTag_le (text : List Char) :
    (readStartTag text).value.2.length ≤ text.length := by
  have name := Text.length_dropWhile_le inTagName text
  have list := readAttributes_le [] (text.dropWhile inTagName)
  simp only [readStartTag, Warned.bind_value, Warned.pure_value]
  refine Nat.le_trans (readContent_le _ _ _) ?_
  rw [List.length_drop]
  split
  · rw [List.length_drop]
    omega
  · omega

theorem readEndTag_le (text : List Char) : (readEndTag text).value.2.length ≤ text.length :=
  Nat.le_trans (skipPast_le _ _) (Text.length_dropWhile_le _ _)

theorem readDeclaration_le (text : List Char) :
    (readDeclaration text).value.2.length ≤ text.length := by
  unfold readDeclaration
  split
  · exact Nat.le_trans (skipPast_le _ _) (by simp)
  · exact skipPast_le _ _

theorem readMarkup_le (text : List Char) : (readMarkup text).value.2.length ≤ text.length := by
  unfold readMarkup
  split
  · exact readDeclaration_le _
  · exact skipPast_le _ _
  · exact Nat.le_trans (readEndTag_le _) (by simp)
  · exact readStartTag_le _

/-- Text and markup are cut off in turn until nothing is left. -/
def pieces (text : List Char) : List (Warned Piece) :=
  match text with
  | [] => []
  | c :: rest =>
      if _ : opensMarkup (c :: rest) then
        let read := readMarkup rest
        ⟨read.value.1, read.warnings⟩ :: pieces read.value.2
      else
        let run := textRun (c :: rest)
        pure (.text run.1) :: pieces run.2
termination_by text.length
decreasing_by
  · exact Nat.lt_succ_of_le (readMarkup_le rest)
  · rename_i opens
    have := congrArg List.length (textRun_append rest)
    simp only [List.length_append] at this
    simp only [textRun, opens, List.length_cons]
    simp
    omega

end ElementQuery.Markup
