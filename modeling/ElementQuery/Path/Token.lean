/-
This file holds the tokens of path expressions.
-/

import ElementQuery.Number.Shortest
import ElementQuery.Text.Quoted

namespace ElementQuery.Path

/-- A star is a name test where an operand may stand, and multiplication behind an operand. -/
inductive Token where
  | slash
  | doubleSlash
  | dot
  | doubleDot
  | at
  | pipe
  | plus
  | minus
  | star
  | multiply
  | equal
  | notEqual
  | less
  | atMost
  | greater
  | atLeast
  | and
  | or
  | mod
  | div
  | leftParen
  | rightParen
  | leftBracket
  | rightBracket
  | number (value : Binary64)
  | literal (text : String)
  | name (text : String)
  | nodeType (text : String)
  | axis (text : String)
  | doubleColon
  | comma
  | unknown (c : Char)
  | finish
deriving DecidableEq, Repr

namespace Token

/-- Behind the end of an operand a name or a star is an operator. -/
def endsOperand : Token → Bool
  | .rightParen | .rightBracket | .number _ | .literal _ | .name _ | .star | .dot | .doubleDot =>
      true
  | _ => false

/-- The kind of a token as messages name it. -/
def kind : Token → String
  | .slash => "Slash"
  | .doubleSlash => "DoubleSlash"
  | .dot => "Dot"
  | .doubleDot => "DoubleDot"
  | .at => "At"
  | .pipe => "Pipe"
  | .plus => "Plus"
  | .minus => "Minus"
  | .star => "Star"
  | .multiply => "Multiply"
  | .equal => "Eq"
  | .notEqual => "NotEq"
  | .less => "Lt"
  | .atMost => "LtEq"
  | .greater => "Gt"
  | .atLeast => "GtEq"
  | .and => "And"
  | .or => "Or"
  | .mod => "Mod"
  | .div => "Div"
  | .leftParen => "LeftParen"
  | .rightParen => "RightParen"
  | .leftBracket => "LeftBracket"
  | .rightBracket => "RightBracket"
  | .number _ => "Number"
  | .literal _ => "Literal"
  | .name _ => "Name"
  | .nodeType _ => "NodeType"
  | .axis _ => "Axis"
  | .doubleColon => "DoubleColon"
  | .comma => "Comma"
  | .unknown _ => "Unknown"
  | .finish => "Eof"

/-- A token in a message: its kind and, in parentheses, what it carries. -/
def shown (token : Token) : String :=
  let carrying (text : String) := token.kind ++ "(" ++ text ++ ")"
  match token with
  | .number value => carrying value.literal
  | .literal text | .name text | .nodeType text | .axis text => carrying (Text.quoted text)
  | .unknown c => carrying (Text.quotedChar c)
  | _ => token.kind

end Token

end ElementQuery.Path
