import RngLowering.Program.Basic
import RngLowering.Token

/-!
The textual form of a program.

A program is written as lines of tokens. Values are numbered in the order in which the lines define
them, so that the text does not depend on the places that values have in the table.
-/

set_option autoImplicit false

namespace RngLowering

/-- A token in a line, with a space in front of it or not. -/
inductive Piece where
  | spaced (token : Token)
  | tight (token : Token)
  deriving DecidableEq

namespace Piece

def token : Piece → Token
  | .spaced token => token
  | .tight token => token

def text : Piece → String
  | .spaced token => " " ++ token.text
  | .tight token => token.text

end Piece

/-- A line: two spaces for each level of nesting, then its pieces. -/
structure Line where
  depth : Nat
  pieces : List Piece
  deriving DecidableEq

def Line.text (line : Line) : String :=
  String.join (List.replicate line.depth "  ") ++ String.join (line.pieces.map Piece.text) ++ "\n"

namespace Printer

/-- The numbers given to values so far. -/
abbrev Names := List (ValueId × Nat)

/-- Number a value that is defined here, unless it has a number. -/
def define (names : Names) (value : ValueId) : Names :=
  if (names.lookup value).isSome then names else (value, names.length) :: names

def defineAll (names : Names) (values : List ValueId) : Names :=
  values.foldl define names

/-- A use of a value. One that no line before defines is shown by its place in the table. -/
def valueToken (names : Names) (value : ValueId) : Token :=
  match names.lookup value with
  | some n => .value (toString n)
  | none => .value ("<undef:" ++ toString value ++ ">")

def typeToken (p : Program) (value : ValueId) : Token :=
  match p.value? value with
  | some info => .ident info.ty.text
  | none => .ident ""

/-- Items separated by commas: `first` is the piece for the head of the list. -/
def commaList (first : Token → Piece) : List Token → List Piece
  | [] => []
  | head :: rest => first head :: rest.flatMap fun item => [.tight .comma, .spaced item]

def attrTokens : String × Attr → List Token
  | (key, .int value) => [.ident key, .equals, .int value]
  | (key, .str text) => [.ident key, .equals, .str text]
  | (key, .flag) => [.ident key]

/-- Tokens with a space between each and the next. -/
def spacedOut (first : Token → Piece) : List Token → List Piece
  | [] => []
  | head :: rest => first head :: rest.map .spaced

/-- Attributes in braces, or nothing if there are none. -/
def attrPieces : List (String × Attr) → List Piece
  | [] => []
  | head :: rest =>
    .spaced .lbrace :: spacedOut .tight (attrTokens head) ++
      (rest.flatMap fun attr => .tight .comma :: spacedOut .spaced (attrTokens attr)) ++
      [.tight .rbrace]

/-- Parameters of a function: each value with its type. -/
def argPieces (p : Program) (names : Names) : List ValueId → List Piece
  | [] => []
  | head :: rest =>
    arg .tight head ++ rest.flatMap fun value => .tight .comma :: arg .spaced value
where
  arg (first : Token → Piece) (value : ValueId) : List Piece :=
    [first (valueToken names value), .tight .colon, .spaced (typeToken p value)]

/-- The types of an operation: that of a cell for its definition, else those of the results. -/
def typeTokens (p : Program) (op : Op) : List Token :=
  match op.kind with
  | .global cell => [.ident cell.ty.text]
  | _ => op.results.map (typeToken p)

/-- The types after a colon, or nothing if there are none. -/
def typePieces : List Token → List Piece
  | [] => []
  | types => .spaced .colon :: commaList .spaced types

/-- The results before an equals sign, or nothing if there are none. -/
def resultPieces (names : Names) : List ValueId → List Piece
  | [] => []
  | results => commaList .tight (results.map (valueToken names)) ++ [.spaced .equals]

/-- The name of an operation, first on its line unless it has results. -/
def namePiece (op : Op) : Piece :=
  if op.results.isEmpty then .tight (.ident op.name) else .spaced (.ident op.name)

def symbolPieces (kind : OpKind) : List Piece :=
  (kind.symbol?.map fun sym => Piece.spaced (.symbol sym)).toList

/-- The line of an operation that is no function. Its results may be used from there on. -/
def opPieces (p : Program) (names : Names) (op : Op) : List Piece :=
  resultPieces (defineAll names op.results) op.results ++ namePiece op :: symbolPieces op.kind ++
    commaList .spaced (op.operands.map (valueToken (defineAll names op.results))) ++
    attrPieces op.kind.attrs ++ typePieces (typeTokens p op)

/-- The first line of a function. -/
def funcPieces (p : Program) (names : Names) (op : Op) (sym : String) : List Piece :=
  [.tight (.ident op.name), .spaced (.symbol sym), .tight .lparen] ++
    argPieces p (defineAll names op.args) op.args ++ [.tight .rparen, .spaced .lbrace]

/-- The lines of one operation, and the numbers given by their end. `nested` writes the region of a
function; other operations show none. -/
def opLines (p : Program) (nested : Names → List OpId → List Line × Names) (depth : Nat)
    (names : Names) (op : Op) : List Line × Names :=
  match op.kind with
  | .func sym =>
    let (inner, after) := nested (defineAll names op.args) op.region
    (⟨depth, funcPieces p names op sym⟩ :: inner ++ [⟨depth, [.tight .rbrace]⟩], after)
  | _ => ([⟨depth, opPieces p names op⟩], defineAll names op.results)

/-- The lines of a list of operations. -/
def siblingLines (p : Program) (nested : Names → List OpId → List Line × Names) (depth : Nat) :
    Names → List OpId → List Line × Names
  | names, [] => ([], names)
  | names, id :: rest =>
    match p.op? id with
    | none => siblingLines p nested depth names rest
    | some op =>
      let (first, middle) := opLines p nested depth names op
      let (more, last) := siblingLines p nested depth middle rest
      (first ++ more, last)

/-- The lines of a region at a depth, with at most `levels` levels of functions. -/
def regionLines (p : Program) : Nat → Nat → Names → List OpId → List Line × Names
  | 0, _ => fun names _ => ([], names)
  | levels + 1, depth => siblingLines p (regionLines p levels (depth + 1)) depth

end Printer

namespace Program

/-- The lines of a program. No nesting is deeper than the arena is long. -/
def lines (p : Program) : List Line :=
  ⟨0, [.tight (.ident "module"), .spaced (.symbol p.name), .spaced .lbrace]⟩ ::
    (Printer.regionLines p p.ops.size 1 [] p.body).1 ++ [⟨0, [.tight .rbrace]⟩]

/-- The program as text. -/
def text (p : Program) : String :=
  String.join (p.lines.map Line.text)

end Program

end RngLowering
