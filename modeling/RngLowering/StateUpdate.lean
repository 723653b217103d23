import RngLowering.Counter

/-!
Lowering of the operation that reads the generator state and advances it.

The operation becomes arithmetic on the counter cell: the old value is loaded, the delta is widened
and added, and the sum is stored. The result is the old value, cut into words with the most
significant one first. Words are signless, so that the tensor of them is cast to the declared type.
-/

set_option autoImplicit false

namespace RngLowering.StateUpdate

/-- What an operation lacks to be a proper state update. -/
inductive Fault where
  | operandCount (count : Nat)
  | resultCount (count : Nat)
  | deltaNotInteger (ty : Ty)
  | deltaInvalid (ty : IntTy)
  | deltaTooWide (ty : IntTy) (counterBits : Nat)
  | resultNotTensor (ty : Ty)
  | elemInvalid (ty : IntTy)
  deriving DecidableEq

def Fault.message : Fault → String
  | .operandCount count => s!"expected 1 operand, got {count}"
  | .resultCount count => s!"expected 1 result, got {count}"
  | .deltaNotInteger ty => s!"delta must be an integer, got {ty.text}"
  | .deltaInvalid ty => s!"delta has invalid integer type {ty.text}"
  | .deltaTooWide ty counterBits =>
    s!"delta of type {ty.text} is wider than the {counterBits}-bit counter"
  | .resultNotTensor ty => s!"result must be a tensor, got {ty.text}"
  | .elemInvalid ty => s!"result has invalid element type {ty.text}"

/-- The parts of a proper state update. -/
structure Parts where
  delta : ValueId
  deltaTy : IntTy
  shape : List Nat
  elem : IntTy
  deriving DecidableEq

namespace Parts

def resultTy (parts : Parts) : Ty := .tensor parts.shape parts.elem

/-- Number of words. -/
def count (parts : Parts) : Nat := parts.shape.foldl (· * ·) 1

/-- The type of each word. -/
def word (parts : Parts) : IntTy := .signless parts.elem.bits

end Parts

/-- Do the elements of a type fit a counter? -/
def fits (ty : Ty) (counterBits : Nat) : Bool :=
  ty.packedBits?.any (· ≤ counterBits)

/-- Check the delta of a state update. -/
def inspectDelta (counterBits : Nat) (ty : Ty) : Except Fault IntTy :=
  match ty with
  | .int deltaTy =>
    if !deltaTy.isValid then .error (.deltaInvalid deltaTy)
    else if counterBits < deltaTy.bits then .error (.deltaTooWide deltaTy counterBits)
    else .ok deltaTy
  | _ => .error (.deltaNotInteger ty)

/-- Check the result of a state update, but for its size. -/
def inspectResult (ty : Ty) : Except Fault (List Nat × IntTy) :=
  match ty with
  | .tensor shape elem => if elem.isValid then .ok (shape, elem) else .error (.elemInvalid elem)
  | _ => .error (.resultNotTensor ty)

/-- Check that an operation is a proper state update for a counter of the given width. -/
def inspect (counterBits : Nat) (p : Program) (id : OpId) : Except ConvertError Parts :=
  match p.op? id with
  | none => .error (.ir (.deadOp id))
  | some op => do
    let delta ← single op op.operands .operandCount
    let result ← single op op.results .resultCount
    let deltaTy ← checked op (inspectDelta counterBits (← ir (p.typeOf delta)))
    let resultTy ← ir (p.typeOf result)
    let (shape, elem) ← checked op (inspectResult resultTy)
    if fits resultTy counterBits then return ⟨delta, deltaTy, shape, elem⟩
    else throw (.packedOverflow resultTy.count elem.bits counterBits op.loc)
where
  checked {α : Type} (op : Op) : Except Fault α → Except ConvertError α
    | .ok a => .ok a
    | .error fault => .error (.malformed op.name fault.message op.loc)
  ir {α : Type} : Except IrError α → Except ConvertError α
    | .ok a => .ok a
    | .error reason => .error (.ir reason)
  single (op : Op) (values : List ValueId) (fault : Nat → Fault) : Except ConvertError ValueId :=
    match values with
    | [value] => .ok value
    | _ => checked op (.error (fault values.length))

/-- Bring a delta to the width of the counter. -/
def emitDelta (wide : IntTy) (parts : Parts) : Build ValueId :=
  if parts.deltaTy.bits = wide.bits then return parts.delta
  else if parts.deltaTy.isSigned then Build.extsi parts.delta wide
  else Build.extui parts.delta wide

/-- Cut the word with the given index, counted from the least significant one, out of a value. -/
def emitWord (wide word : IntTy) (old : ValueId) (index : Nat) : Build ValueId := do
  let amount ← Build.constant (index * word.bits) wide
  let shifted ← Build.shrui old amount
  Build.trunci shifted word

/-- The arithmetic that a state update becomes. -/
def emit (counter : Counter) (parts : Parts) : Build ValueId := do
  let cell ← Build.getGlobal counter.sym counter.ty
  let old ← Build.load cell
  let delta ← emitDelta counter.elem parts
  let new ← Build.addi old delta
  let _ ← Build.store new cell
  let words ←
    (List.range parts.count).reverse.mapM (emitWord counter.elem parts.word old)
  let packed ← Build.fromElements words (.tensor parts.shape parts.word)
  Build.cast packed parts.resultTy

/-- Is there a state update at this place? -/
def isStateUpdate (p : Program) (id : OpId) : Bool :=
  (p.op? id).any (·.kind = .rngUpdate)

/-- Lower a state update. Nothing is changed unless it is a proper one. -/
def expand (config : Config) (id : OpId) : Edit (List Event) := do
  match inspect config.counterBits (← get) id with
  | .error reason => throw reason
  | .ok parts =>
    let (counter, event) ←
      Counter.getOrCreate id config.stateSymbol config.counterBits config.seed
    let result ← Edit.buildBefore id (emit counter parts)
    Edit.replace id [result]
    return [event]

/-- The rule that lowers state updates. -/
def rule (config : Config) : Rule where
  name := "rng-get-and-update-state-to-arith"
  root := OpKind.rngUpdate.name
  applies := isStateUpdate
  apply := expand config

end RngLowering.StateUpdate
