import RngLowering.Text.Blank
import RngLowering.Token
import RngLowering.Word

/-!
Splitting a text into tokens.

Between tokens there may be blanks, and comments from `//` to the end of the line. A type with
parameters, such as `tensor<4xi32>`, is one token.
-/

set_option autoImplicit false

namespace RngLowering

/-- Why a text has no next token. -/
inductive LexFault where
  | emptyName (mark : Char)
  | unclosedType (text : String)
  | badInteger (text : String)
  | unclosedString
  | strayChar (c : Char)
  deriving DecidableEq

def LexFault.message : LexFault → String
  | .emptyName mark => "expected a name after '" ++ mark.toString ++ "'"
  | .unclosedType text => "unterminated type '" ++ text ++ "'"
  | .badInteger text => "invalid integer literal '" ++ text ++ "'"
  | .unclosedString => "unterminated string literal"
  | .strayChar c => "unexpected character '" ++ c.toString ++ "'"

/-- A fault, and the line on which reading stopped. -/
structure LexError where
  line : Nat
  fault : LexFault
  deriving DecidableEq

namespace Lexer

def isNameStart (c : Char) : Bool :=
  c.isAlpha || c = '_'

def isNameChar (c : Char) : Bool :=
  c.isAlphanum || c = '_' || c = '.' || c = '$'

def isNumberChar (c : Char) : Bool :=
  c.isAlphanum || c = '_'

def punctuation? (c : Char) : Option Token :=
  if c = '=' then some .equals
  else if c = ',' then some .comma
  else if c = ':' then some .colon
  else if c = '(' then some .lparen
  else if c = ')' then some .rparen
  else if c = '{' then some .lbrace
  else if c = '}' then some .rbrace
  else none

/-- What begins at a character: something to skip, or a token. `length` counts the characters after
the first. -/
inductive Lexeme where
  | trivia (length : Nat)
  | token (token : Token) (length : Nat)

/-- Number of characters of a comment's rest, its line end included. -/
def commentLength (rest : List Char) : Nat :=
  (rest.takeWhile (· ≠ '\n')).length + 1

/-- The characters of a bracketed group, from the first bracket to the one that closes it. `depth`
counts the brackets that are open. Without a closing bracket on the line, all that was seen. -/
def group : Nat → List Char → List Char × Bool
  | _, [] => ([], false)
  | depth, c :: rest =>
    if c = '\n' then ([], false)
    else if c = '>' && depth ≤ 1 then ([c], true)
    else
      let depth := if c = '<' then depth + 1 else if c = '>' then depth - 1 else depth
      let (taken, closed) := group depth rest
      (c :: taken, closed)

/-- The parameters after a type's name, if there are any. -/
def parameters (rest : List Char) : List Char × Bool :=
  match rest with
  | '<' :: _ => group 0 rest
  | _ => ([], true)

def identLexeme (line : Nat) (c : Char) (rest : List Char) : Except LexError Lexeme :=
  let name := rest.takeWhile isNameChar
  let (params, closed) := parameters (rest.drop name.length)
  let text := String.ofList (c :: name ++ params)
  if closed then .ok (.token (.ident text) (name.length + params.length))
  else .error ⟨line, .unclosedType text⟩

def numberLexeme (line : Nat) (c : Char) (rest : List Char) : Except LexError Lexeme :=
  let tail := rest.takeWhile isNumberChar
  match Numeral.readLiteral wordLimit (c :: tail) with
  | .ok value => .ok (.token (.int value) tail.length)
  | .error _ => .error ⟨line, .badInteger (String.ofList (c :: tail))⟩

/-- A name after a mark. -/
def nameLexeme (line : Nat) (mark : Char) (token : String → Token) (rest : List Char) :
    Except LexError Lexeme :=
  let name := rest.takeWhile isNameChar
  if name.isEmpty then .error ⟨line, .emptyName mark⟩
  else .ok (.token (token (String.ofList name)) name.length)

/-- A string ends at the next quote of its line. A line end met instead has been read, so that the
fault lies on the line after it. -/
def stringLexeme (line : Nat) (rest : List Char) : Except LexError Lexeme :=
  let text := rest.takeWhile fun c => c ≠ '"' && c ≠ '\n'
  match rest.drop text.length with
  | '"' :: _ => .ok (.token (.str (String.ofList text)) (text.length + 1))
  | _ :: _ => .error ⟨line + 1, .unclosedString⟩
  | [] => .error ⟨line, .unclosedString⟩

/-- What begins at the character `c` of a line, where `rest` follows. -/
def lexeme (line : Nat) (c : Char) (rest : List Char) : Except LexError Lexeme :=
  if Text.isBlank c then .ok (.trivia 0)
  else if c = '/' && rest.head? = some '/' then .ok (.trivia (commentLength rest))
  else
    match punctuation? c with
    | some token => .ok (.token token 0)
    | none =>
      if c = '@' then nameLexeme line c .symbol rest
      else if c = '%' then nameLexeme line c .value rest
      else if c = '"' then stringLexeme line rest
      else if c.isDigit then numberLexeme line c rest
      else if isNameStart c then identLexeme line c rest
      else .error ⟨line, .strayChar c⟩

/-- The tokens of a text from a place on, after the `skip` characters that still belong to what came
before. -/
def tokensFrom : Nat → Pos → List Char → Except LexError (List PlacedToken)
  | _, _, [] => .ok []
  | skip + 1, pos, c :: rest => tokensFrom skip (pos.next c) rest
  | 0, pos, c :: rest =>
    match lexeme pos.line c rest with
    | .error reason => .error reason
    | .ok (.trivia length) => tokensFrom length (pos.next c) rest
    | .ok (.token token length) =>
      match tokensFrom length (pos.next c) rest with
      | .error reason => .error reason
      | .ok tokens => .ok (⟨token, pos⟩ :: tokens)

/-- The tokens of a text. -/
def tokens (text : String) : Except LexError (List PlacedToken) :=
  tokensFrom 0 {} text.toList

end Lexer

end RngLowering
