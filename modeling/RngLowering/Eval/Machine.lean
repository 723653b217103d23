import RngLowering.Config
import RngLowering.Eval.Error
import RngLowering.Event
import RngLowering.Program.Basic

/-!
Evaluation of functions, before and after lowering.

The cells of a program live in a machine. They start with the values that the program gives them and
keep what is stored across calls. A state update that finds no counter cell creates it with the seed
of the configuration.

A step that fails leaves the machine as it was before it, with the report of the step.
-/

set_option autoImplicit false

namespace RngLowering

structure Cell where
  elem : IntTy
  value : Nat
  deriving DecidableEq

structure Machine where
  cells : Table Cell := []
  events : Array Event := #[]

namespace Machine

/-- The cell that an operation defines, if it defines one. -/
def cellOf? (p : Program) (id : OpId) : Option (String × Cell) :=
  match (p.op? id).map Op.kind with
  | some (.global cell) => some (cell.sym, ⟨cell.ty.elem, cell.init⟩)
  | _ => none

/-- A machine with the cells of a program. Of two definitions of a name, the later one counts. -/
def ofProgram (p : Program) : Machine where
  cells := (p.body.filterMap (cellOf? p)).foldl (fun cells (sym, cell) => cells.put sym cell) []

def cell? (m : Machine) (sym : String) : Option Cell := m.cells.lookup sym

/-- The value of a cell. -/
def global? (m : Machine) (sym : String) : Option Nat := (m.cell? sym).map (·.value)

def putCell (m : Machine) (sym : String) (cell : Cell) : Machine :=
  { m with cells := m.cells.put sym cell }

end Machine

/-- A step of evaluation. -/
abbrev Eval (α : Type) := EStateM EvalError Machine α

/-- The values that are bound so far, the latest first. -/
abbrev Env := List (ValueId × Value)

/-- Bind values in order: of an id that is listed twice, the last value counts. -/
def bindAll (ids : List ValueId) (values : List Value) (env : Env) : Env :=
  (ids.zip values).reverse ++ env

theorem bindAll_cons (id : ValueId) (value : Value) (ids : List ValueId) (values : List Value)
    (env : Env) : bindAll (id :: ids) (value :: values) env = bindAll ids values ((id, value) :: env) := by
  simp [bindAll]

theorem mem_bindAll {ids : List ValueId} {values : List Value} {env : Env} {binding : ValueId × Value} :
    binding ∈ bindAll ids values env ↔ binding ∈ ids.zip values ∨ binding ∈ env := by
  simp [bindAll]

/-- What is evaluated: a program, and the counter of its state updates. -/
structure Evaluator where
  program : Program
  config : Config := {}

namespace Evaluator

def report (event : Event) : Eval Unit :=
  modify fun m => { m with events := m.events.push event }

/-- Store a value in a cell that there is. It is cut to the width of the cell. -/
def setGlobal (sym : String) (value : Nat) : Eval Unit := do
  match (← get).cell? sym with
  | none => throw (.missingGlobal sym)
  | some cell => modify (·.putCell sym { cell with value := truncate cell.elem.bits value })

def fetch (env : Env) (value : ValueId) : Except EvalError Value :=
  match env.lookup value with
  | some bound => .ok bound
  | none => .error (.unbound value)

/-- The value of the operand with the given index. -/
def operand (env : Env) (op : Op) (index : Nat) : Except EvalError Value :=
  match op.operands[index]? with
  | none => .error (.unsupported op.name op.loc)
  | some value => fetch env value

def intOperand (env : Env) (op : Op) (index : Nat) : Except EvalError (IntTy × Nat) := do
  match ← operand env op index with
  | .int ty bits => return (ty, bits)
  | other => throw (.mismatch op.name .integerOperand other.sort op.loc)

/-- The name of the cell that an operand refers to. -/
def cellOperand (env : Env) (op : Op) (index : Nat) : Except EvalError String := do
  match ← operand env op index with
  | .ref sym => return sym
  | other => throw (.mismatch op.name .memrefOperand other.sort op.loc)

/-- The declared type of the first result. -/
def resultTy (p : Program) (op : Op) : Except EvalError Ty :=
  match op.result? with
  | none => .error (.unsupported op.name op.loc)
  | some value =>
    match p.typeOf value with
    | .ok ty => .ok ty
    | .error _ => .error (.unbound value)

/-- An integer as the result of an operation. -/
def intResult (p : Program) (op : Op) (bits : Nat) : Except EvalError (List Value) := do
  match ← resultTy p op with
  | .int ty => return [.ofNat ty bits]
  | other => throw (.mismatch op.name .integerResult other.text op.loc)

/-- A value cast to a type: a tensor to one of as many elements, or an integer to another. -/
def castTo (op : Op) (ty : Ty) (value : Value) : Except EvalError Value :=
  let refused := .error (.mismatch op.name (.valueOf ty) value.sort op.loc)
  match value, ty with
  | .tensor _ elems, .tensor _ elem =>
    if elems.length = ty.count then .ok (.tensor ty (elems.map (truncate elem.bits))) else refused
  | .int _ bits, .int target => .ok (.ofNat target bits)
  | _, _ => refused

/-- Operations that depend on their operands alone; `none` for all others. -/
def pureStep? (p : Program) (env : Env) (op : Op) : Option (Except EvalError (List Value)) :=
  match op.kind with
  | .constant value => some (intResult p op value)
  | .addi => some do
    let (_, lhs) ← intOperand env op 0
    let (_, rhs) ← intOperand env op 1
    intResult p op (lhs + rhs)
  | .shrui => some do
    let (ty, value) ← intOperand env op 0
    let (_, amount) ← intOperand env op 1
    intResult p op (if ty.bits ≤ amount then 0 else value >>> amount)
  | .trunci => some do
    let (_, value) ← intOperand env op 0
    intResult p op value
  | .extui => some do
    let (_, value) ← intOperand env op 0
    intResult p op value
  | .extsi => some do
    let (source, value) ← intOperand env op 0
    let target ← resultTy p op
    intResult p op (signExtend value source.bits target.width)
  | .fromElements => some do
    let ty ← resultTy p op
    let elems ←
      (List.range op.operands.length).mapM fun index => (intOperand env op index).map (·.2)
    if ty.count = elems.length then return [.tensor ty elems]
    else throw (.mismatch op.name (.elements ty.count) (toString elems.length) op.loc)
  | .cast => some do
    let ty ← resultTy p op
    return [← castTo op ty (← operand env op 0)]
  | _ => none

/-- The delta and the result type of a state update, if they suit a counter of the given width. -/
def updateParts (p : Program) (counterBits : Nat) (env : Env) (op : Op) :
    Except EvalError (IntTy × Nat × Ty) := do
  let (deltaTy, delta) ← intOperand env op 0
  let ty ← resultTy p op
  if !ty.isTensor || !ty.elem.isValid then
    throw (.mismatch op.name .validTensor ty.text op.loc)
  if !deltaTy.isValid || counterBits < deltaTy.bits then
    throw (.mismatch op.name (.delta counterBits) deltaTy.text op.loc)
  if !ty.packedBits?.any (· ≤ counterBits) then
    throw (.packedOverflow ty.count ty.width counterBits op.loc)
  return (deltaTy, delta, ty)

/-- The counter that a state update finds, or the one that it creates. -/
def counterCell (config : Config) (m : Machine) : Cell :=
  (m.cell? config.stateSymbol).getD
    ⟨.signless config.counterBits, truncate config.counterBits config.seed⟩

/-- A delta at the width of a cell. -/
def widenDelta (cell : Cell) (ty : IntTy) (delta : Nat) : Nat :=
  if ty.isSigned then signExtend delta ty.bits cell.elem.bits else truncate cell.elem.bits delta

/-- The cell after it has been advanced. -/
def advance (cell : Cell) (ty : IntTy) (delta : Nat) : Cell :=
  { cell with value := truncate cell.elem.bits (cell.value + widenDelta cell ty delta) }

def ofExcept {α : Type} (outcome : Except EvalError α) : Eval α := fun m =>
  match outcome with
  | .ok a => .ok a m
  | .error reason => .error reason m

/-- Read the counter and advance it. -/
def stateUpdate (ev : Evaluator) (env : Env) (op : Op) : Eval (List Value) := do
  let (deltaTy, delta, ty) ← ofExcept (updateParts ev.program ev.config.counterBits env op)
  let cell := counterCell ev.config (← get)
  modify (·.putCell ev.config.stateSymbol (advance cell deltaTy delta))
  return [.tensor ty (chunks cell.value ty.width ty.count)]

/-- Evaluate one operation. Gives the values of its results. -/
def step (ev : Evaluator) (env : Env) (op : Op) : Eval (List Value) :=
  match pureStep? ev.program env op with
  | some outcome => ofExcept outcome
  | none =>
    match op.kind with
    | .getGlobal sym => do
      if ((← get).cell? sym).isNone then throw (.missingGlobal sym)
      return [.ref sym]
    | .load => do
      let sym ← ofExcept (cellOperand env op 0)
      match (← get).cell? sym with
      | none => throw (.missingGlobal sym)
      | some cell => return [.ofNat cell.elem cell.value]
    | .store => do
      let (_, value) ← ofExcept (intOperand env op 0)
      let sym ← ofExcept (cellOperand env op 1)
      setGlobal sym value
      return []
    | .rngUpdate => ev.stateUpdate env op
    | _ => throw (.unsupported op.name op.loc)

/-- Evaluate operations in order up to a return, whose operands are the result. Without one there
are no results. -/
def runOps (ev : Evaluator) : Env → List OpId → Eval (List Value)
  | _, [] => return []
  | env, id :: rest =>
    match ev.program.op? id with
    | none => ev.runOps env rest
    | some op =>
      if op.kind = .ret then ofExcept (op.operands.mapM (fetch env))
      else do
        report (.evaluating id op.name)
        let values ← ev.step env op
        ev.runOps (bindAll op.results values env) rest

/-- The function of a given name, if it takes `count` arguments. -/
def functionOf (p : Program) (name : String) (count : Nat) : Except EvalError Op :=
  match (p.function? name).bind p.op? with
  | none => .error (.unknownFunction name)
  | some op =>
    if op.args.length = count then .ok op
    else .error (.arity name op.args.length count)

/-- Call a function with values of any sort. -/
def call (ev : Evaluator) (name : String) (args : List Value) : Eval (List Value) := do
  let op ← ofExcept (functionOf ev.program name args.length)
  report (.calling name args.length)
  ev.runOps (bindAll op.args args []) op.region

/-- A number as a value for a parameter. -/
def argFor (p : Program) (func : String) (param : ValueId) (arg : Nat) : Except EvalError Value :=
  match p.typeOf param with
  | .error _ => .error (.unbound param)
  | .ok (.int ty) => .ok (.ofNat ty arg)
  | .ok other => .error (.mismatch ("@" ++ func) .integerParams other.text none)

/-- Call a function with numbers, each cut to the width of its parameter. -/
def callInts (ev : Evaluator) (name : String) (args : List Nat) : Eval (List Value) := do
  let op ← ofExcept (functionOf ev.program name args.length)
  let values ←
    ofExcept ((op.args.zip args).mapM fun (param, arg) => argFor ev.program name param arg)
  ev.call name values

end Evaluator

end RngLowering
