import RngLowering.Eval.Value
import RngLowering.Op

set_option autoImplicit false

namespace RngLowering

/-- What an operation needs to be evaluated. -/
inductive Need where
  | integerParams
  | integerOperand
  | memrefOperand
  | integerResult
  | validTensor
  | delta (bits : Nat)
  | elements (count : Nat)
  | valueOf (ty : Ty)
  deriving DecidableEq

def Need.text : Need → String
  | .integerParams => "integer parameters"
  | .integerOperand => "an integer operand"
  | .memrefOperand => "a memref operand"
  | .integerResult => "an integer result"
  | .validTensor => "a tensor of valid integers"
  | .delta bits => s!"a delta of at most {bits} bits"
  | .elements count => s!"{count} element(s)"
  | .valueOf ty => ty.text

inductive EvalError where
  | unknownFunction (name : String)
  | arity (func : String) (expected got : Nat)
  | unbound (value : ValueId)
  | unsupported (op : String) (loc : Option Loc)
  | mismatch (op : String) (need : Need) (found : String) (loc : Option Loc)
  | missingGlobal (sym : String)
  | packedOverflow (elements wordSize counterBits : Nat) (loc : Option Loc)
  deriving DecidableEq

def EvalError.message : EvalError → String
  | .unknownFunction name => s!"unknown function '@{name}'"
  | .arity func expected got => s!"function '@{func}' expects {expected} argument(s), got {got}"
  | .unbound value => s!"value {valueText value} used before it was defined"
  | .unsupported op loc => locate loc s!"cannot evaluate '{op}'"
  | .mismatch op need found loc => locate loc s!"'{op}' expected {need.text}, got {found}"
  | .missingGlobal sym => s!"no global named '@{sym}'"
  | .packedOverflow elements wordSize counterBits loc =>
    locate loc
      s!"cannot pack {elements} x {wordSize}-bit elements from a {counterBits}-bit counter"

end RngLowering
