import RngLowering.Op

/-!
Programs: an arena of operations, a table of values, and the top-level region.

An operation keeps its place in the arena for good. Erasing it empties the slot, so that places
handed out earlier stay meaningful. Regions are lists of places.
-/

set_option autoImplicit false

namespace RngLowering

/-- Where a value comes from. -/
inductive ValueDef where
  | result (op : OpId) (index : Nat)
  | arg (func : OpId) (index : Nat)
  deriving DecidableEq

structure ValueInfo where
  ty : Ty
  origin : ValueDef
  deriving DecidableEq

structure Program where
  name : String := "module"
  /-- The arena; an erased operation leaves `none`. -/
  ops : Array (Option Op) := #[]
  values : Array ValueInfo := #[]
  /-- The top-level region. -/
  body : List OpId := []
  deriving DecidableEq

/-- A place that does not hold what it was taken to hold. -/
inductive IrError where
  | deadOp (id : OpId)
  | unknownValue (id : ValueId)
  deriving DecidableEq

def IrError.message : IrError → String
  | .deadOp id => "operation " ++ opText id ++ " has been erased or never existed"
  | .unknownValue id => "value " ++ valueText id ++ " is not defined in this module"

namespace Program

/-- The operation at a place, unless it was erased or never there. -/
def op? (p : Program) (id : OpId) : Option Op :=
  p.ops[id]?.join

def isLive (p : Program) (id : OpId) : Bool :=
  (p.op? id).isSome

def value? (p : Program) (value : ValueId) : Option ValueInfo :=
  p.values[value]?

def typeOf (p : Program) (value : ValueId) : Except IrError Ty :=
  match p.value? value with
  | some info => .ok info.ty
  | none => .error (.unknownValue value)

/-- Number of live operations. -/
def numOps (p : Program) : Nat :=
  p.ops.countP Option.isSome

/-- The region of an operation, or the top-level one. -/
def region (p : Program) : Option OpId → Except IrError (List OpId)
  | none => .ok p.body
  | some parent =>
    match p.op? parent with
    | some op => .ok op.region
    | none => .error (.deadOp parent)

/-- The region that holds an operation, and its index there. -/
def position? (p : Program) (id : OpId) : Option (Option OpId × Nat) := do
  let op ← p.op? id
  let region ← (p.region op.parent).toOption
  let index ← region.idxOf? id
  return (op.parent, index)

/-- The live operations of a region with all they enclose, down to a depth, outer ones first. -/
def walkRegion (p : Program) : Nat → List OpId → List OpId
  | 0, _ => []
  | depth + 1, region =>
    region.flatMap fun id =>
      match p.op? id with
      | some op => id :: p.walkRegion depth op.region
      | none => []

/-- All live operations in program order, outer ones first. No nesting is deeper than the arena is
long. -/
def walk (p : Program) : List OpId :=
  p.walkRegion p.ops.size p.body

/-- The operations of `walk`, with their places. -/
def liveOps (p : Program) : List (OpId × Op) :=
  p.walk.filterMap fun id => (p.op? id).map (id, ·)

/-- Operations that use a value, in program order. -/
def uses (p : Program) (value : ValueId) : List OpId :=
  p.walk.filter fun id => (p.op? id).any (·.uses value)

/-- Number of live operations with a given name. -/
def countOps (p : Program) (name : String) : Nat :=
  p.walk.countP fun id => (p.op? id).any (·.name = name)

/-- Live operations at or after a place of the arena. -/
def createdSince (p : Program) (mark : Nat) : List OpId :=
  (List.range' mark (p.ops.size - mark)).filter p.isLive

/-- The first operation of the body that defines a symbol. -/
def lookupSymbol? (p : Program) (sym : String) : Option OpId :=
  p.body.find? fun id => (p.op? id).any (·.kind.defines sym)

/-- The function of a given name. A symbol that something else defines first hides it. -/
def function? (p : Program) (name : String) : Option OpId :=
  (p.lookupSymbol? name).filter fun id => (p.op? id).any (·.kind.isFunc)

/-- Names and places of all functions, in order. -/
def functions (p : Program) : List (String × OpId) :=
  p.body.filterMap fun id =>
    match (p.op? id).map Op.kind with
    | some (.func sym) => some (sym, id)
    | _ => none

end Program

end RngLowering
