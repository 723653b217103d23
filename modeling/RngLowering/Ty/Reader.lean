import RngLowering.Numeral
import RngLowering.Ty

set_option autoImplicit false

namespace RngLowering

/-- The parts of a text between separators; one more than there are separators. -/
def splitAt (separator : Char) : List Char → List (List Char)
  | [] => [[]]
  | c :: rest =>
    if c = separator then [] :: splitAt separator rest
    else
      match splitAt separator rest with
      | [] => [[c]]
      | part :: parts => (c :: part) :: parts

/-- Cut `opening` off the front and `>` off the end. -/
def enclosed? (opening : String) (text : List Char) : Option (List Char) :=
  (opening.toList.isPrefixOf? text).bind fun inner => ['>'].isSuffixOf? inner

/-- The signedness that a text begins with, and the rest of it. -/
def Signedness.read? : List Char → Option (Signedness × List Char)
  | 's' :: 'i' :: rest => some (.signed, rest)
  | 'u' :: 'i' :: rest => some (.unsigned, rest)
  | 'i' :: rest => some (.signless, rest)
  | _ => none

/-- A width is written in digits alone, and has to be valid. -/
def IntTy.ofChars? (text : List Char) : Option IntTy := do
  let (sign, digits) ← Signedness.read? text
  guard (digits.all Char.isDigit)
  let bits ← (Numeral.readUnsigned 10 (maxBits + 1) digits).toOption
  let ty : IntTy := ⟨bits, sign⟩
  guard ty.isValid
  return ty

/-- A dimension is an unsigned numeral, so that it may carry a plus sign. -/
def readDim? (text : List Char) : Option Nat :=
  (Numeral.readUnsigned 10 sizeLimit text).toOption

namespace Ty

/-- The dimensions and the element type of a tensor, separated by `x`. -/
def tensorOfChars? (inner : List Char) : Option Ty := do
  let parts := splitAt 'x' inner
  let elem ← parts.getLast?.bind IntTy.ofChars?
  let shape ← parts.dropLast.mapM readDim?
  return .tensor shape elem

def ofChars? (text : List Char) : Option Ty :=
  match enclosed? "tensor<" text with
  | some inner => tensorOfChars? inner
  | none =>
    match enclosed? "memref<" text with
    | some inner => (IntTy.ofChars? inner).map .memref
    | none => (IntTy.ofChars? text).map .int

/-- The type written as `text`. -/
def ofText? (text : String) : Option Ty := ofChars? text.toList

end Ty

end RngLowering
