import RngLowering.Word

set_option autoImplicit false

namespace RngLowering

/-- How the bits of an integer are read. Signless integers leave that to each operation. -/
inductive Signedness where
  | signless
  | signed
  | unsigned
  deriving DecidableEq

structure IntTy where
  bits : Nat
  sign : Signedness
  deriving DecidableEq

namespace IntTy

def signless (bits : Nat) : IntTy := ⟨bits, .signless⟩

def toSignless (ty : IntTy) : IntTy := signless ty.bits

/-- Does a word hold integers of this width, and are there any? -/
def isValid (ty : IntTy) : Bool :=
  1 ≤ ty.bits && ty.bits ≤ maxBits

def mask (ty : IntTy) : Nat := RngLowering.mask ty.bits

def isSigned (ty : IntTy) : Bool := ty.sign = .signed

def text (ty : IntTy) : String :=
  match ty.sign with
  | .signless => "i" ++ toString ty.bits
  | .signed => "si" ++ toString ty.bits
  | .unsigned => "ui" ++ toString ty.bits

end IntTy

/-- One more than the largest size of a dimension or count of elements. -/
def sizeLimit : Nat := Nat.pow 2 64

inductive Ty where
  | int (ty : IntTy)
  /-- A tensor of the given shape; the empty shape has one element. -/
  | tensor (shape : List Nat) (elem : IntTy)
  /-- A cell that holds one integer. -/
  | memref (elem : IntTy)
  deriving DecidableEq

/-- The product of two sizes, if it is a size. -/
def sizeMul? (a b : Nat) : Option Nat :=
  if a * b < sizeLimit then some (a * b) else none

namespace Ty

def asInt? : Ty → Option IntTy
  | .int ty => some ty
  | _ => none

/-- The integers that a value of the type is made of. -/
def elem : Ty → IntTy
  | .int ty => ty
  | .tensor _ elem => elem
  | .memref elem => elem

/-- Width of each integer. -/
def width (ty : Ty) : Nat := ty.elem.bits

def shape? : Ty → Option (List Nat)
  | .tensor shape _ => some shape
  | _ => none

def isTensor (ty : Ty) : Bool := ty.shape?.isSome

def isMemref : Ty → Bool
  | .memref _ => true
  | _ => false

/-- Number of elements, unless a product of leading dimensions is no size. -/
def count? : Ty → Option Nat
  | .tensor shape _ => shape.foldlM sizeMul? 1
  | _ => some 1

/-- Number of elements, or the largest size. -/
def count (ty : Ty) : Nat := ty.count?.getD (sizeLimit - 1)

/-- Bits of all elements together, if that is a size. -/
def packedBits? (ty : Ty) : Option Nat :=
  ty.count?.bind fun count => sizeMul? count ty.width

def text : Ty → String
  | .int ty => ty.text
  | .tensor shape elem =>
    "tensor<" ++ String.join (shape.map fun dim => toString dim ++ "x") ++ elem.text ++ ">"
  | .memref elem => "memref<" ++ elem.text ++ ">"

end Ty

end RngLowering
