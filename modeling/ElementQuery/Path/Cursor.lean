/-
This file moves through a path expression by bytes and cuts it into tokens. Whether a name or a star is an
operator depends on the token before it. There is no result where the text would be cut within a character.
-/

import ElementQuery.Number.Reading
import ElementQuery.Path.Token
import ElementQuery.Text.Blank
import ElementQuery.Text.Bytes

namespace ElementQuery.Path

def isNameStart (c : Char) : Bool := Text.isLetter c || c == '_'

def isNameChar (c : Char) : Bool :=
  Text.isLetterOrNumber c || c == '_' || c == '-' || c == '.'

/-- The operators that are written as names. -/
def operatorName? (name : String) : Option Token :=
  if name = "and" then some .and
  else if name = "or" then some .or
  else if name = "mod" then some .mod
  else if name = "div" then some .div
  else none

/-- The names that ask for a kind of node when a parenthesis follows. -/
def nodeTypes : List String := ["node", "text", "comment"]

/-- A cursor has the whole text, the number of bytes before its place, and whether the last token ended an
operand. -/
structure Cursor where
  whole : List Char
  pos : Nat := 0
  afterOperand : Bool := false
deriving DecidableEq, Repr

namespace Cursor

def ofText (text : String) : Cursor := { whole := text.toList }

/-- The text behind the cursor. -/
def rest? (cursor : Cursor) : Option (List Char) :=
  (Text.cutBytes? cursor.pos cursor.whole).map Prod.snd

/-- The text between an earlier place and the cursor. -/
def since? (cursor : Cursor) (start : Nat) : Option (List Char) :=
  (Text.cutBytes? cursor.pos cursor.whole).bind fun parts =>
    (Text.cutBytes? start parts.1).map Prod.snd

/-- The next character, unless the text ends at the cursor. -/
def peek? (cursor : Cursor) : Option (Option Char) :=
  cursor.rest?.map List.head?

/-- The character that stands some characters further on. -/
def peekAt? (cursor : Cursor) (index : Nat) : Option (Option Char) :=
  cursor.rest?.map fun rest => rest[index]?

/-- A cursor is moved on by bytes, but not beyond its text. -/
def advance (cursor : Cursor) (count : Nat) : Cursor :=
  { cursor with pos := min (cursor.pos + count) (Text.byteLength cursor.whole) }

/-- Where a character follows, fewer bytes are left once the cursor has been moved on. -/
theorem left_advance_lt {cursor : Cursor} {c : Char} {count : Nat} (next : cursor.peek? = some (some c))
    (positive : 0 < count) :
    Text.byteLength (cursor.advance count).whole - (cursor.advance count).pos <
      Text.byteLength cursor.whole - cursor.pos := by
  obtain ⟨rest, found, head⟩ := Option.map_eq_some_iff.1 next
  obtain ⟨⟨front, last⟩, cut, rfl⟩ := Option.map_eq_some_iff.1 found
  obtain ⟨shape, size⟩ := Text.cutBytes?_eq_some_iff.1 cut
  obtain ⟨others, rfl⟩ := List.head?_eq_some_iff.1 head
  have more := c.utf8Size_pos
  have bytes := congrArg Text.byteLength shape
  rw [Text.byteLength_append, Text.byteLength_cons] at bytes
  simp only [advance]
  omega

/-- Characters are passed while they meet a test, each of them by a number of bytes. -/
def skipWhile? (test : Char → Bool) (width : Char → Nat) (positive : ∀ c, 0 < width c) (cursor : Cursor) :
    Option Cursor :=
  match _ : cursor.peek? with
  | none => none
  | some none => some cursor
  | some (some c) =>
      if test c then skipWhile? test width positive (cursor.advance (width c)) else some cursor
termination_by Text.byteLength cursor.whole - cursor.pos
decreasing_by exact left_advance_lt ‹_› (positive c)

/-- Characters are passed by all their bytes. -/
def skipChars? (cursor : Cursor) (test : Char → Bool) : Option Cursor :=
  cursor.skipWhile? test Char.utf8Size Char.utf8Size_pos

def skipBlanks? (cursor : Cursor) : Option Cursor := cursor.skipChars? Text.isBlank

/-- Digits are passed by one byte each. -/
def skipDigits? (cursor : Cursor) : Option Cursor :=
  cursor.skipWhile? Char.isDigit (fun _ => 1) fun _ => Nat.one_pos

/-- A point and the digits behind it are passed. -/
def skipFraction? (cursor : Cursor) : Option Cursor := do
  if (← cursor.peek?) = some '.' then (cursor.advance 1).skipDigits? else return cursor

/-- The digits of a number end before a second point. -/
def readNumber? (cursor : Cursor) : Option (Token × Cursor) := do
  let whole ← cursor.skipDigits?
  let read ← whole.skipFraction?
  let digits ← read.since? cursor.pos
  return (.number ((Binary64.ofUnsigned? digits).getD .nan), read)

/-- A literal goes on up to the same quote; without one the quote is unknown and takes the whole
rest. -/
def readLiteral? (cursor : Cursor) (quote : Char) : Option (Token × Cursor) := do
  let opened := cursor.advance 1
  let read ← opened.skipChars? (· != quote)
  if (← read.peek?).isNone then return (.unknown quote, read)
  let text ← read.since? opened.pos
  return (.literal (String.ofList text), read.advance 1)

/-- A name is an axis before two colons and a kind of node before a parenthesis; blanks between them
belong to the token. Behind another name the cursor is set back before the blanks. -/
def nameToken? (cursor : Cursor) (name : String) : Option (Token × Cursor) := do
  let next ← cursor.skipBlanks?
  if "::".toList.isPrefixOf (← next.rest?) then return (.axis name, next)
  if (← next.peek?) = some '(' ∧ name ∈ nodeTypes then return (.nodeType name, next)
  return (.name name, { next with pos := cursor.pos })

def readName? (cursor : Cursor) : Option (Token × Cursor) := do
  let read ← cursor.skipChars? isNameChar
  let name := String.ofList (← read.since? cursor.pos)
  match if cursor.afterOperand then operatorName? name else none with
  | some token => return (token, read)
  | none => read.nameToken? name

/-- A token that is written with one byte. -/
def single (cursor : Cursor) (token : Token) : Option (Token × Cursor) :=
  some (token, cursor.advance 1)

/-- A sign of one byte may be followed by another one that belongs to it. -/
def pair? (cursor : Cursor) (second : Char) (alone both : Token) : Option (Token × Cursor) := do
  let next := cursor.advance 1
  if (← next.peek?) = some second then return (both, next.advance 1) else return (alone, next)

/-- The tokens that begin with one of many characters. -/
def readOther? (cursor : Cursor) (c : Char) : Option (Token × Cursor) :=
  if c = '\x22' ∨ c = '\x27' then cursor.readLiteral? c
  else if c.isDigit then cursor.readNumber?
  else if isNameStart c then cursor.readName?
  else some (.unknown c, cursor.advance c.utf8Size)

/-- A sign of two bytes that stand together; the first of them alone is none. -/
def double? (cursor : Cursor) (first second : Char) (both : Token) : Option (Token × Cursor) := do
  if (← cursor.peekAt? 1) = some second then return (both, cursor.advance 2)
  else cursor.readOther? first

/-- A point may begin a number or stand before another one. -/
def readPoint? (cursor : Cursor) : Option (Token × Cursor) := do
  let second ← cursor.peekAt? 1
  if second = some '.' then return (.doubleDot, cursor.advance 2)
  else if second.any Char.isDigit then cursor.readNumber?
  else cursor.single .dot

/-- The token that begins with a character at the cursor. -/
def readToken? (cursor : Cursor) (c : Char) : Option (Token × Cursor) :=
  match c with
  | '/' => cursor.pair? '/' .slash .doubleSlash
  | '.' => cursor.readPoint?
  | '@' => cursor.single .at
  | '|' => cursor.single .pipe
  | '+' => cursor.single .plus
  | '-' => cursor.single .minus
  | '*' => cursor.single (if cursor.afterOperand then .multiply else .star)
  | '=' => cursor.single .equal
  | '!' => cursor.double? '!' '=' .notEqual
  | '<' => cursor.pair? '=' .less .atMost
  | '>' => cursor.pair? '=' .greater .atLeast
  | '(' => cursor.single .leftParen
  | ')' => cursor.single .rightParen
  | '[' => cursor.single .leftBracket
  | ']' => cursor.single .rightBracket
  | ',' => cursor.single .comma
  | ':' => cursor.double? ':' ':' .doubleColon
  | c => cursor.readOther? c

/-- One token is read behind blanks, or the end is found. -/
def scan? (cursor : Cursor) : Option (Token × Cursor) := do
  let start ← cursor.skipBlanks?
  match ← start.peek? with
  | none => return (.finish, start)
  | some c => start.readToken? c

/-- The next token. The cursor notes whether it ended an operand. -/
def next? (cursor : Cursor) : Option (Token × Cursor) :=
  cursor.scan?.map fun found => (found.1, { found.2 with afterOperand := found.1.endsOperand })

end Cursor

end ElementQuery.Path
