import RngLowering.Ty

set_option autoImplicit false

namespace RngLowering

inductive Value where
  | int (ty : IntTy) (bits : Nat)
  /-- The elements in row-major order. -/
  | tensor (ty : Ty) (elems : List Nat)
  /-- A reference to a cell. -/
  | ref (sym : String)
  deriving DecidableEq

namespace Value

/-- An integer cut to the width of its type. -/
def ofNat (ty : IntTy) (bits : Nat) : Value := .int ty (truncate ty.bits bits)

def asInt? : Value → Option Nat
  | .int _ bits => some bits
  | _ => none

def asElems? : Value → Option (List Nat)
  | .tensor _ elems => some elems
  | _ => none

/-- What sort of value it is. -/
def sort : Value → String
  | .int ty _ => ty.text
  | .tensor ty _ => ty.text
  | .ref sym => "reference to @" ++ sym

def text : Value → String
  | .int ty bits => s!"{bits} : {ty.text}"
  | .tensor ty elems =>
    "[" ++ String.intercalate ", " (elems.map fun elem => toString elem) ++ "] : " ++ ty.text
  | .ref sym => "@" ++ sym

end Value

end RngLowering
