import RngLowering.Conversion.Rule

/-!
Counter cells: hidden cells at module level that keep the generator state.

All uses of a counter in a program share one cell. The first use creates it at the start of the
body, and later ones find it there.
-/

set_option autoImplicit false

namespace RngLowering

/-- A counter cell and the operation that defines it. -/
structure Counter where
  sym : String
  ty : Ty
  definition : OpId
  deriving DecidableEq

namespace Counter

def elem (counter : Counter) : IntTy := counter.ty.elem

def cellTy (width : Nat) : Ty := .memref (.signless width)

/-- Can an operation of this kind define a counter of the given width? -/
def isCell (kind : OpKind) (width : Nat) : Bool :=
  match kind with
  | .global cell => !cell.frozen && cell.ty = cellTy width
  | _ => false

/-- The counter of a given name, if the name is defined. -/
def find? (p : Program) (anchor : OpId) (sym : String) (width : Nat) :
    Option (Except ConvertError Counter) :=
  (p.lookupSymbol? sym).map fun id =>
    match p.op? id with
    | none => .error (.ir (.deadOp id))
    | some op =>
      if isCell op.kind width then .ok ⟨sym, cellTy width, id⟩
      else
        let loc := op.loc.or ((p.op? anchor).bind (·.loc))
        .error (.symbolMismatch sym op.kind (cellTy width) loc)

/-- Create a counter at the start of the body, at the location of the operation that needs it. -/
def create (anchor : OpId) (sym : String) (width seed : Nat) : Edit Counter := do
  let p ← get
  let start := (Builder.atStart p).withLoc ((p.op? anchor).bind (·.loc))
  let id ← Edit.build start (Build.global sym (.signless width) seed .hidden)
  return ⟨sym, cellTy width, id⟩

/-- Find a counter or create it. Gives what there is to report too. -/
def getOrCreate (anchor : OpId) (sym : String) (width seed : Nat) : Edit (Counter × Event) := do
  match find? (← get) anchor sym width with
  | some (.ok counter) => return (counter, .reusedCell sym counter.definition)
  | some (.error reason) => throw reason
  | none =>
    let counter ← create anchor sym width seed
    return (counter, .createdCell sym counter.ty seed)

end Counter

end RngLowering
