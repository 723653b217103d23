import RngLowering.Program.Edit

/-!
Building operations one after another at a point of a region.

A step of building either succeeds or fails, and in both cases leaves a builder behind: its program,
and the point after the last operation it inserted.
-/

set_option autoImplicit false

namespace RngLowering

structure Builder where
  program : Program
  /-- The region built in. -/
  parent : Option OpId
  /-- Where in that region the next operation goes. -/
  index : Nat
  /-- Location of the operations built from now on. -/
  loc : Option Loc := none
  /-- What was built so far, in order. -/
  created : List OpId := []

namespace Builder

/-- Build at the end of a region. -/
def atEnd (p : Program) (parent : Option OpId) : Except IrError Builder :=
  match p.region parent with
  | .ok region => .ok { program := p, parent, index := region.length }
  | .error reason => .error reason

/-- Build right before an operation, and at its location. -/
def before (p : Program) (anchor : OpId) : Except IrError Builder :=
  match p.position? anchor with
  | some (parent, index) =>
    .ok { program := p, parent, index, loc := (p.op? anchor).bind (·.loc) }
  | none => .error (.deadOp anchor)

/-- Build at the very start of the body. -/
def atStart (p : Program) : Builder :=
  { program := p, parent := none, index := 0 }

def withLoc (b : Builder) (loc : Option Loc) : Builder :=
  { b with loc }

end Builder

/-- A step of building. -/
abbrev Build (α : Type) := EStateM IrError Builder α

namespace Build

/-- Insert an operation and move the point past it. -/
def insert (kind : OpKind) (operands : List ValueId) (types : List Ty) : Build OpId := fun b =>
  match b.program.insert b.parent b.index { kind, operands, loc := b.loc } types with
  | .ok (id, program) =>
    .ok id { b with program, index := b.index + 1, created := b.created ++ [id] }
  | .error reason => .error reason b

/-- Insert an operation with one result, and give that. -/
def insertValue (kind : OpKind) (operands : List ValueId) (ty : Ty) : Build ValueId := do
  let value := (← get).program.values.size
  let _ ← insert kind operands [ty]
  return value

def typeOf (value : ValueId) : Build Ty := fun b =>
  match b.program.typeOf value with
  | .ok ty => .ok ty b
  | .error reason => .error reason b

/-- The value is cut to the width of the type. -/
def constant (value : Nat) (ty : IntTy) : Build ValueId :=
  insertValue (.constant (truncate ty.bits value)) [] (.int ty)

/-- The sum has the type of the left operand. -/
def addi (lhs rhs : ValueId) : Build ValueId := do
  insertValue .addi [lhs, rhs] (← typeOf lhs)

/-- The shifted value keeps its type. -/
def shrui (value amount : ValueId) : Build ValueId := do
  insertValue .shrui [value, amount] (← typeOf value)

def trunci (value : ValueId) (ty : IntTy) : Build ValueId :=
  insertValue .trunci [value] (.int ty)

def extui (value : ValueId) (ty : IntTy) : Build ValueId :=
  insertValue .extui [value] (.int ty)

def extsi (value : ValueId) (ty : IntTy) : Build ValueId :=
  insertValue .extsi [value] (.int ty)

/-- A cell that may be stored to. Its initial value is cut to the width of the cell. -/
def global (sym : String) (elem : IntTy) (init : Nat) (visibility : Visibility) : Build OpId :=
  insert (.global ⟨sym, .memref elem, truncate elem.bits init, visibility, false⟩) [] []

def getGlobal (sym : String) (ty : Ty) : Build ValueId :=
  insertValue (.getGlobal sym) [] ty

/-- The loaded value has the element type of the cell. -/
def load (cell : ValueId) : Build ValueId := do
  insertValue .load [cell] (.int (← typeOf cell).elem)

def store (value cell : ValueId) : Build OpId :=
  insert .store [value, cell] []

def fromElements (elements : List ValueId) (ty : Ty) : Build ValueId :=
  insertValue .fromElements elements ty

def cast (value : ValueId) (ty : Ty) : Build ValueId :=
  insertValue .cast [value] ty

def rngUpdate (delta : ValueId) (ty : Ty) : Build ValueId :=
  insertValue .rngUpdate [delta] ty

def ret (values : List ValueId) : Build OpId :=
  insert .ret values []

/-- A foreign operation without symbol or attributes. -/
def foreign (name : String) (operands : List ValueId) (types : List Ty) : Build OpId :=
  insert (.bare name) operands types

end Build

end RngLowering
