import RngLowering.Program.Basic

/-!
Edits of a program: inserting, changing, erasing and replacing operations.

New operations and values always take the next free place. An edit that fails gives no program.
-/

set_option autoImplicit false

namespace RngLowering.Program

/-- Change a live operation in place; a dead one stays dead. -/
def modifyOp (p : Program) (id : OpId) (change : Op → Op) : Program :=
  { p with ops := p.ops.modify id (·.map change) }

def setKind (p : Program) (id : OpId) (kind : OpKind) : Program :=
  p.modifyOp id ({ · with kind })

def setOperands (p : Program) (id : OpId) (operands : List ValueId) : Program :=
  p.modifyOp id ({ · with operands })

/-- Change the region of an operation, or the top-level one. -/
def modifyRegion (p : Program) (parent : Option OpId) (change : List OpId → List OpId) : Program :=
  match parent with
  | none => { p with body := change p.body }
  | some id => p.modifyOp id fun op => { op with region := change op.region }

/-- Use `new` wherever `old` was used. -/
def replaceUses (p : Program) (old new : ValueId) : Program :=
  { p with ops := p.ops.map (·.map (·.replaceUse old new)) }

/-- Number of operands of live operations that are `value`. -/
def useCount (p : Program) (value : ValueId) : Nat :=
  p.ops.foldl (fun uses slot => uses + (slot.map (·.operands.count value)).getD 0) 0

/-- Table entries for the results of the operation at place `id`. -/
def resultInfos (id : OpId) (types : List Ty) : List ValueInfo :=
  types.zipIdx.map fun (ty, index) => ⟨ty, .result id index⟩

/-- Table entries for the parameters of the function at place `id`. -/
def argInfos (id : OpId) (types : List Ty) : List ValueInfo :=
  types.zipIdx.map fun (ty, index) => ⟨ty, .arg id index⟩

/-- Places that the next `count` values will take. -/
def nextValues (p : Program) (count : Nat) : List ValueId :=
  List.range' p.values.size count

/-- Put `item` before the element at `index`, or at the end if there is none. -/
def insertAt (items : List OpId) (index : Nat) (item : OpId) : List OpId :=
  items.take index ++ item :: items.drop index

/-- Insert an operation at an index of a region, with one new value for each result type. -/
def insert (p : Program) (parent : Option OpId) (index : Nat) (op : Op) (types : List Ty) :
    Except IrError (OpId × Program) :=
  match p.region parent with
  | .error reason => .error reason
  | .ok _ =>
    let id := p.ops.size
    let placed := { op with parent, results := p.nextValues types.length }
    let grown :=
      { p with
        ops := p.ops.push (some placed)
        values := p.values ++ resultInfos id types }
    .ok (id, grown.modifyRegion parent (insertAt · index id))

/-- Append an operation to a region. -/
def push (p : Program) (parent : Option OpId) (op : Op) (types : List Ty) :
    Except IrError (OpId × Program) :=
  match p.region parent with
  | .error reason => .error reason
  | .ok region => p.insert parent region.length op types

/-- Append a function with parameters of the given types to the body. -/
def addFunction (p : Program) (sym : String) (types : List Ty) (loc : Option Loc) :
    OpId × List ValueId × Program :=
  let id := p.ops.size
  let args := p.nextValues types.length
  (id, args,
    { p with
      ops := p.ops.push (some { kind := .func sym, args, loc })
      values := p.values ++ argInfos id types
      body := p.body ++ [id] })

/-- Empty the given slots of the arena. -/
def clear (p : Program) (ids : List OpId) : Program :=
  { p with ops := ids.foldl (fun ops id => ops.setIfInBounds id none) p.ops }

/-- A live operation and all it encloses. -/
def subtree (p : Program) (id : OpId) : List OpId :=
  p.walkRegion p.ops.size [id]

/-- Erase an operation and all it encloses. Also gives the operation as it was. -/
def erase (p : Program) (id : OpId) : Except IrError (Op × Program) :=
  match p.op? id with
  | none => .error (.deadOp id)
  | some op =>
    match p.region op.parent with
    | .error reason => .error reason
    | .ok _ =>
      let detached := p.modifyRegion op.parent (·.filter (· ≠ id))
      .ok (op, detached.clear (p.subtree id))

/-- Use the given values in place of an operation's results, as far as both go, and erase the
operation. -/
def replace (p : Program) (id : OpId) (values : List ValueId) : Except IrError Program :=
  match p.op? id with
  | none => .error (.deadOp id)
  | some op =>
    let rewired := (op.results.zip values).foldl (fun p (old, new) => p.replaceUses old new) p
    (rewired.erase id).map (·.2)

end RngLowering.Program
