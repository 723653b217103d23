import RngLowering.Program.Basic
import RngLowering.Token.Lexer

set_option autoImplicit false

namespace RngLowering

/-- What is wrong with the tokens of a line. -/
inductive GrammarFault where
  | expected (wanted got : Token)
  | expectedValue (got : Token)
  | expectedFunctionName (got : Token)
  | expectedAttrName (got : Token)
  | badAttrValue (key : String) (got : Token)
  | expectedOpName (got : Token)
  | nestedFunction
  | trailingTokens
  | notPlain (name : String)
  | constantValue
  | globalSymbol
  | globalType
  | unknownVisibility (text : String)
  | visibilityNotString
  | initNotInteger
  | getGlobalForm
  | globalResults
  | resultCount (name : String) (results types : Nat)
  deriving DecidableEq

def GrammarFault.message : GrammarFault → String
  | .expected wanted got => "Expected " ++ wanted.shown ++ ", got " ++ got.shown
  | .expectedValue got => "Expected a value, got " ++ got.shown
  | .expectedFunctionName got => "Expected function name, got " ++ got.shown
  | .expectedAttrName got => "Expected attribute name, got " ++ got.shown
  | .badAttrValue key got => "Invalid value for '" ++ key ++ "': " ++ got.shown
  | .expectedOpName got => "Expected an operation name, got " ++ got.shown
  | .nestedFunction => "Nested functions are not supported"
  | .trailingTokens => "Unexpected tokens after module"
  | .notPlain name => "'" ++ name ++ "' takes no symbol or attributes"
  | .constantValue => "arith.constant needs an integer 'value' attribute"
  | .globalSymbol => "memref.global needs a symbol"
  | .globalType => "memref.global needs a single memref type"
  | .unknownVisibility text => "Unknown visibility '" ++ text ++ "'"
  | .visibilityNotString => "visibility must be a string"
  | .initNotInteger => "init must be an integer"
  | .getGlobalForm => "memref.get_global needs a symbol and no attributes"
  | .globalResults => "memref.global has no results"
  | .resultCount name results types =>
    "'" ++ name ++ "' declares " ++ toString results ++ " result(s) but " ++ toString types ++
      " type(s)"

inductive ReadError where
  | lexical (reason : LexError)
  | grammar (line : Nat) (fault : GrammarFault)
  | endOfInput
  | invalidType (line : Nat) (text : String)
  | undefinedValue (line : Nat) (name : String)
  | redefinition (line : Nat) (name : String)
  | ir (reason : IrError)
  deriving DecidableEq

namespace ReadError

def message : ReadError → String
  | .lexical reason =>
    "Lexer error at line " ++ toString reason.line ++ ": " ++ reason.fault.message
  | .grammar line fault => "Parse error at line " ++ toString line ++ ": " ++ fault.message
  | .endOfInput => "Unexpected end of input"
  | .invalidType line text => "Invalid type at line " ++ toString line ++ ": " ++ text
  | .undefinedValue line name =>
    "Use of undefined value %" ++ name ++ " at line " ++ toString line
  | .redefinition line name => "Redefinition of value %" ++ name ++ " at line " ++ toString line
  | .ir reason => "IR error: " ++ reason.message

/-- The line of the fault, if it has one. -/
def line? : ReadError → Option Nat
  | .lexical reason => some reason.line
  | .grammar line _ => some line
  | .invalidType line _ => some line
  | .undefinedValue line _ => some line
  | .redefinition line _ => some line
  | .endOfInput => none
  | .ir _ => none

/-- The errors under this one, outermost first. -/
def causes : ReadError → List String
  | .ir reason => [reason.message]
  | _ => []

end ReadError

end RngLowering
