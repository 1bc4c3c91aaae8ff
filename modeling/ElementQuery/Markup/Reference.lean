/-
This file holds the character references of markup: how they are read and which characters are
written as one.
-/

import ElementQuery.Text.Integer
import ElementQuery.Text.Search

namespace ElementQuery.Markup

/-- The named references and the characters that they stand for. -/
def namedReferences : List (String × Char) :=
  [("amp", '&'), ("lt", '<'), ("gt", '>'), ("quot", '\x22'), ("apos", '\x27'),
    ("nbsp", '\u00a0')]

/-- A code point stands for a character unless it is a surrogate or too large. -/
def character? (code : Nat) : Option Char :=
  if code.isValidChar then some (Char.ofNat code) else none

/-- The greatest code point. -/
def lastCodePoint : Nat := 1114111

/-- A numeric reference is decimal, or hexadecimal after an x. -/
def numericReference? : List Char → Option Char
  | '#' :: 'x' :: digits => (Text.readNatural? 16 lastCodePoint digits).bind character?
  | '#' :: 'X' :: digits => (Text.readNatural? 16 lastCodePoint digits).bind character?
  | '#' :: digits => (Text.readNatural? 10 lastCodePoint digits).bind character?
  | _ => none

/-- The text between an ampersand and a semicolon stands for a character. -/
def resolve? (reference : List Char) : Option Char :=
  match namedReferences.find? fun entry => entry.1.toList == reference with
  | some entry => some entry.2
  | none => numericReference? reference

/-- After an ampersand, the text up to the next semicolon is a reference if it stands for a
character. -/
def reference? (text : List Char) : Option (Char × List Char) :=
  (Text.cutAt? [';'] text).bind fun parts => (resolve? parts.1).map fun c => (c, parts.2)

theorem reference?_shorter {text rest : List Char} {c : Char}
    (found : reference? text = some (c, rest)) : rest.length < text.length := by
  simp only [reference?, Option.bind_eq_some_iff, Option.map_eq_some_iff, Prod.mk.injEq] at found
  obtain ⟨parts, cut, _, _, _, rfl⟩ := found
  have whole : text = parts.1 ++ [';'] ++ parts.2 := Text.cutAt?_sound cut
  rw [whole]
  simp
  omega

/-- Every reference is replaced by its character, and an ampersand that begins none stays. -/
def decode (text : List Char) : List Char :=
  match text with
  | [] => []
  | c :: rest =>
      if c = '&' then
        match _ : reference? rest with
        | some (character, after) => character :: decode after
        | none => '&' :: decode rest
      else c :: decode rest
termination_by text.length
decreasing_by
  · rename_i found
    have := reference?_shorter found
    simp only [List.length_cons]
    omega
  · simp
  · simp

def decodeText (text : String) : String := String.ofList (decode text.toList)

/-- In text the angle brackets are written as references, in attribute values the double quote, and
in both the ampersand and the no-break space. -/
def escapeChar (inAttribute : Bool) (c : Char) : List Char :=
  if c = '&' then "&amp;".toList
  else if c = '\u00a0' then "&nbsp;".toList
  else if c = '\x22' && inAttribute then "&quot;".toList
  else if c = '<' && !inAttribute then "&lt;".toList
  else if c = '>' && !inAttribute then "&gt;".toList
  else [c]

def escape (inAttribute : Bool) (text : List Char) : List Char :=
  text.flatMap (escapeChar inAttribute)

end ElementQuery.Markup
