import RngLowering.Config
import RngLowering.Program.Basic

set_option autoImplicit false

namespace RngLowering

/-- An operation that no rule converts. -/
structure IllegalOp where
  id : OpId
  name : String
  loc : Option Loc
  deriving DecidableEq

def IllegalOp.text (op : IllegalOp) : String :=
  locate op.loc s!"'{op.name}' ({opText op.id})"

/-- An operation as the definition of a symbol. -/
def OpKind.asDefinition (kind : OpKind) : String :=
  match kind with
  | .global cell =>
    if cell.frozen then s!"a constant '{kind.name}' of type {cell.ty.text}"
    else s!"'{kind.name}' of type {cell.ty.text}"
  | _ => s!"'{kind.name}'"

inductive ConvertError where
  /-- The counter's name stands for something else. -/
  | symbolMismatch (sym : String) (found : OpKind) (expected : Ty) (loc : Option Loc)
  /-- Operations remain that no rule converts. -/
  | stuck (remaining : List IllegalOp) (applied : Nat)
  /-- A result needs more bits than the counter has. -/
  | packedOverflow (elements wordSize counterBits : Nat) (loc : Option Loc)
  | malformed (op reason : String) (loc : Option Loc)
  | config (reason : ConfigError)
  | ir (reason : IrError)
  deriving DecidableEq

namespace ConvertError

def message : ConvertError → String
  | .symbolMismatch sym found expected loc =>
    let kind := found.asDefinition
    locate loc
      s!"symbol '{sym}' is already defined as {kind}, not as a {expected.text} counter cell"
  | .stuck remaining applied =>
    let list := String.intercalate ", " (remaining.map IllegalOp.text)
    s!"failed to legalize {remaining.length} operation(s) after {applied} rewrite(s): {list}"
  | .packedOverflow elements wordSize counterBits loc =>
    locate loc
      s!"cannot pack {elements} x {wordSize}-bit elements from a {counterBits}-bit counter"
  | .malformed op reason loc => locate loc s!"malformed '{op}': {reason}"
  | .config reason => s!"invalid configuration: {reason.message}"
  | .ir reason => s!"IR error: {reason.message}"

/-- Is the program or the configuration broken, and not only unfinished? -/
def isFatal : ConvertError → Bool
  | .stuck _ _ => false
  | _ => true

/-- The errors under this one, outermost first. -/
def causes : ConvertError → List String
  | .config reason => [reason.message]
  | .ir reason => [reason.message]
  | _ => []

end ConvertError

end RngLowering
