import RngLowering.Text.Quoted

set_option autoImplicit false

namespace RngLowering

inductive Token where
  /-- A keyword, an operation name, an attribute name or a type. -/
  | ident (text : String)
  /-- A name after `@`. -/
  | symbol (name : String)
  /-- A name after `%`. -/
  | value (name : String)
  | int (value : Nat)
  /-- A text in quotes; it has no escapes. -/
  | str (text : String)
  | equals
  | comma
  | colon
  | lparen
  | rparen
  | lbrace
  | rbrace
  deriving DecidableEq

namespace Token

/-- The token as it is written. -/
def text : Token → String
  | .ident word => word
  | .symbol name => "@" ++ name
  | .value name => "%" ++ name
  | .int n => toString n
  | .str inner => "\"" ++ inner ++ "\""
  | .equals => "="
  | .comma => ","
  | .colon => ":"
  | .lparen => "("
  | .rparen => ")"
  | .lbrace => "\x7b"
  | .rbrace => "\x7d"

/-- The token as a message shows it. -/
def shown : Token → String
  | .ident word => "Ident(" ++ Text.quoted word ++ ")"
  | .symbol name => "Symbol(" ++ Text.quoted name ++ ")"
  | .value name => "Value(" ++ Text.quoted name ++ ")"
  | .int n => "Int(" ++ toString n ++ ")"
  | .str inner => "Str(" ++ Text.quoted inner ++ ")"
  | .equals => "Equals"
  | .comma => "Comma"
  | .colon => "Colon"
  | .lparen => "LParen"
  | .rparen => "RParen"
  | .lbrace => "LBrace"
  | .rbrace => "RBrace"

end Token

/-- A place in a text. Lines and columns count from one. They stand for 32-bit numbers, so a text is
meant to have fewer than `2 ^ 32` of each. -/
structure Pos where
  line : Nat := 1
  col : Nat := 1
  deriving DecidableEq

/-- The place after a character. -/
def Pos.next (pos : Pos) (c : Char) : Pos :=
  if c = '\n' then ⟨pos.line + 1, 1⟩ else ⟨pos.line, pos.col + 1⟩

/-- A token and the place of its first character. -/
structure PlacedToken where
  token : Token
  pos : Pos
  deriving DecidableEq

def PlacedToken.line (placed : PlacedToken) : Nat := placed.pos.line

end RngLowering
