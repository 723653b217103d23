import RngLowering.Loc
import RngLowering.Ty

/-!
Operations: what each kind is called, which symbol and attributes it carries, and the record that a
program keeps of it.

An operation name is `dialect.operation`. Operations that have no kind of their own are foreign:
they are carried along unchanged, and nothing looks inside them.
-/

set_option autoImplicit false

namespace RngLowering

/-- Place of an operation in its program's arena. Places stand for 32-bit numbers, so a program is meant
to have fewer than `2 ^ 32` operations, dead ones included. -/
abbrev OpId := Nat

/-- Place of a value in its program's value table, which has fewer than `2 ^ 32` values for the same
reason. -/
abbrev ValueId := Nat

def opText (id : OpId) : String := "op#" ++ toString id

def valueText (id : ValueId) : String := "%" ++ toString id

inductive Visibility where
  | shared
  | hidden
  deriving DecidableEq

namespace Visibility

def text : Visibility → String
  | .shared => "public"
  | .hidden => "private"

def ofText? (text : String) : Option Visibility :=
  if text = "public" then some .shared
  else if text = "private" then some .hidden
  else none

end Visibility

/-- The value of an attribute. A flag has no value and counts by being there. -/
inductive Attr where
  | int (value : Nat)
  | str (text : String)
  | flag
  deriving DecidableEq

/-- Definition of a module-level cell. A frozen cell may not be stored to. -/
structure GlobalCell where
  sym : String
  ty : Ty
  init : Nat
  visibility : Visibility
  frozen : Bool
  deriving DecidableEq

inductive OpKind where
  | constant (value : Nat)
  | addi
  | shrui
  | trunci
  | extui
  | extsi
  | global (cell : GlobalCell)
  | getGlobal (sym : String)
  | load
  /-- Takes the value, then the cell. -/
  | store
  | fromElements
  | cast
  | func (sym : String)
  | ret
  /-- Reads the generator state and advances it by the operand. -/
  | rngUpdate
  | foreign (name : String) (sym : Option String) (attrs : List (String × Attr))
  deriving DecidableEq

/-- The dialect of an operation name: all before the first dot, or the whole name. -/
def dialectOf (name : String) : String :=
  String.ofList (name.toList.takeWhile (· ≠ '.'))

namespace OpKind

def name : OpKind → String
  | .constant _ => "arith.constant"
  | .addi => "arith.addi"
  | .shrui => "arith.shrui"
  | .trunci => "arith.trunci"
  | .extui => "arith.extui"
  | .extsi => "arith.extsi"
  | .global _ => "memref.global"
  | .getGlobal _ => "memref.get_global"
  | .load => "memref.load"
  | .store => "memref.store"
  | .fromElements => "tensor.from_elements"
  | .cast => "builtin.unrealized_conversion_cast"
  | .func _ => "func.func"
  | .ret => "func.return"
  | .rngUpdate => "mhlo.rng_get_and_update_state"
  | .foreign name _ _ => name

def dialect (kind : OpKind) : String := dialectOf kind.name

/-- The symbol written after the name, whether it is defined there or only named. -/
def symbol? : OpKind → Option String
  | .global cell => some cell.sym
  | .getGlobal sym => some sym
  | .func sym => some sym
  | .foreign _ sym _ => sym
  | _ => none

def definesSymbol : OpKind → Bool
  | .global _ => true
  | .func _ => true
  | .foreign _ sym _ => sym.isSome
  | _ => false

/-- Does an operation of this kind define `sym`? -/
def defines (kind : OpKind) (sym : String) : Bool :=
  kind.definesSymbol && kind.symbol? = some sym

def isFunc : OpKind → Bool
  | .func _ => true
  | _ => false

/-- Attributes in the order in which they are written. -/
def attrs : OpKind → List (String × Attr)
  | .constant value => [("value", .int value)]
  | .global cell =>
    [("visibility", .str cell.visibility.text), ("init", .int cell.init)] ++
      (if cell.frozen then [("constant", .flag)] else [])
  | .foreign _ _ attrs => attrs
  | _ => []

/-- Must the operation stay even if its results are unused? -/
def hasSideEffects : OpKind → Bool
  | .store => true
  | .ret => true
  | .rngUpdate => true
  | .foreign _ _ _ => true
  | _ => false

def isArith (kind : OpKind) : Bool := kind.dialect = "arith"

/-- A foreign kind without symbol or attributes. -/
def bare (name : String) : OpKind := .foreign name none []

end OpKind

/-- An operation as its program holds it. -/
structure Op where
  kind : OpKind
  operands : List ValueId := []
  results : List ValueId := []
  /-- Operations nested in this one, in order. -/
  region : List OpId := []
  /-- Parameters of a function. -/
  args : List ValueId := []
  /-- The operation whose region this one is in; `none` for the program's body. -/
  parent : Option OpId := none
  loc : Option Loc := none
  deriving DecidableEq

namespace Op

def name (op : Op) : String := op.kind.name

def result? (op : Op) : Option ValueId := op.results.head?

def uses (op : Op) (value : ValueId) : Bool := op.operands.contains value

/-- Use `new` wherever `old` was used. -/
def replaceUse (op : Op) (old new : ValueId) : Op :=
  { op with operands := op.operands.map fun value => if value = old then new else value }

end Op

end RngLowering
