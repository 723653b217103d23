import RngLowering.Eval.Machine
import RngLowering.Outcome
import RngLowering.Proofs.Placement

/-!
What outlines compute. A statement reads the values of its operands and the cells, and gives the values
of its results and new cells, or fails and leaves the cells alone.

Evaluation of a program depends on its outline only: a call on the program has the answer of the call on
the outline and leaves the same cells, whatever it reports and whichever way it fails.
-/

set_option autoImplicit false

namespace RngLowering

namespace Stmt

def operand? (s : Stmt) (env : Env) (index : Nat) : Option Value :=
  s.operands[index]?.bind (env.lookup ·)

def int? (s : Stmt) (env : Env) (index : Nat) : Option (IntTy × Nat) :=
  match s.operand? env index with
  | some (.int ty bits) => some (ty, bits)
  | _ => none

def cell? (s : Stmt) (env : Env) (index : Nat) : Option String :=
  match s.operand? env index with
  | some (.ref sym) => some sym
  | _ => none

def intResult? (s : Stmt) (bits : Nat) : Option (List Value) :=
  match s.types.head? with
  | some (.int ty) => some [.ofNat ty bits]
  | _ => none

def castTo? (ty : Ty) (value : Value) : Option Value :=
  match value, ty with
  | .tensor _ elems, .tensor _ elem =>
    if elems.length = ty.count then some (.tensor ty (elems.map (truncate elem.bits))) else none
  | .int _ bits, .int target => some (.ofNat target bits)
  | _, _ => none

/-- The results of a statement that depends on its operands alone. -/
def compute? (s : Stmt) (env : Env) : Option (List Value) :=
  match s.kind with
  | .constant value => s.intResult? value
  | .addi => do
    let (_, lhs) ← s.int? env 0
    let (_, rhs) ← s.int? env 1
    s.intResult? (lhs + rhs)
  | .shrui => do
    let (ty, value) ← s.int? env 0
    let (_, amount) ← s.int? env 1
    s.intResult? (if ty.bits ≤ amount then 0 else value >>> amount)
  | .trunci => do
    let (_, value) ← s.int? env 0
    s.intResult? value
  | .extui => do
    let (_, value) ← s.int? env 0
    s.intResult? value
  | .extsi => do
    let (source, value) ← s.int? env 0
    let target ← s.types.head?
    s.intResult? (signExtend value source.bits target.width)
  | .fromElements => do
    let ty ← s.types.head?
    let elems ← (List.range s.operands.length).mapM fun index => (s.int? env index).map (·.2)
    if ty.count = elems.length then some [.tensor ty elems] else none
  | .cast => do
    let ty ← s.types.head?
    let value ← castTo? ty (← s.operand? env 0)
    return [value]
  | _ => none

/-- The delta and the result type of a state update, if they suit a counter of the given width. -/
def update? (s : Stmt) (counterBits : Nat) (env : Env) : Option (IntTy × Nat × Ty) := do
  let (deltaTy, delta) ← s.int? env 0
  let ty ← s.types.head?
  if !ty.isTensor || !ty.elem.isValid then none
  else if !deltaTy.isValid || counterBits < deltaTy.bits then none
  else if !ty.packedBits?.any (· ≤ counterBits) then none
  else some (deltaTy, delta, ty)

/-- The results of a statement and the cells after it. -/
def act? (config : Config) (s : Stmt) (env : Env) (cells : Table Cell) :
    Option (List Value × Table Cell) :=
  match s.kind with
  | .getGlobal sym => (cells.lookup sym).map fun _ => ([.ref sym], cells)
  | .load => do
    let cell ← cells.lookup (← s.cell? env 0)
    return ([.ofNat cell.elem cell.value], cells)
  | .store => do
    let (_, value) ← s.int? env 0
    let sym ← s.cell? env 1
    let cell ← cells.lookup sym
    return ([], cells.put sym { cell with value := truncate cell.elem.bits value })
  | .rngUpdate => do
    let (deltaTy, delta, ty) ← s.update? config.counterBits env
    let cell := Evaluator.counterCell config { cells }
    return ([.tensor ty (chunks cell.value ty.width ty.count)],
      cells.put config.stateSymbol (Evaluator.advance cell deltaTy delta))
  | _ => (s.compute? env).map fun values => (values, cells)

theorem intResult?_cases {s : Stmt} {bits : Nat} {values : List Value}
    (done : s.intResult? bits = some values) :
    ∃ ty bits, s.types.head? = some (.int ty) ∧ values = [.int ty bits] := by
  unfold intResult? at done
  split at done
  · rename_i ty first
    cases done
    exact ⟨ty, _, first, rfl⟩
  · cases done

/-- A statement that depends on its operands alone gives an integer of its declared type, or a
tensor. -/
theorem compute?_cases {s : Stmt} {env : Env} {values : List Value}
    (done : s.compute? env = some values) :
    (∃ ty bits, s.types.head? = some (.int ty) ∧ values = [.int ty bits]) ∨
      ∃ ty elems, values = [.tensor ty elems] := by
  unfold compute? at done
  split at done
  · exact Or.inl (intResult?_cases done)
  · obtain ⟨lhs, -, done⟩ := Option.bind_eq_some_iff.mp done
    obtain ⟨rhs, -, done⟩ := Option.bind_eq_some_iff.mp done
    exact Or.inl (intResult?_cases done)
  · obtain ⟨value, -, done⟩ := Option.bind_eq_some_iff.mp done
    obtain ⟨amount, -, done⟩ := Option.bind_eq_some_iff.mp done
    exact Or.inl (intResult?_cases done)
  · obtain ⟨value, -, done⟩ := Option.bind_eq_some_iff.mp done
    exact Or.inl (intResult?_cases done)
  · obtain ⟨value, -, done⟩ := Option.bind_eq_some_iff.mp done
    exact Or.inl (intResult?_cases done)
  · obtain ⟨value, -, done⟩ := Option.bind_eq_some_iff.mp done
    obtain ⟨target, -, done⟩ := Option.bind_eq_some_iff.mp done
    exact Or.inl (intResult?_cases done)
  · obtain ⟨ty, -, done⟩ := Option.bind_eq_some_iff.mp done
    obtain ⟨elems, -, done⟩ := Option.bind_eq_some_iff.mp done
    split at done
    · cases done
      exact Or.inr ⟨ty, elems, rfl⟩
    · cases done
  · obtain ⟨ty, first, done⟩ := Option.bind_eq_some_iff.mp done
    obtain ⟨value, -, done⟩ := Option.bind_eq_some_iff.mp done
    obtain ⟨result, cast, done⟩ := Option.bind_eq_some_iff.mp done
    cases done
    unfold castTo? at cast
    split at cast
    · split at cast
      · cases cast
        exact Or.inr ⟨_, _, rfl⟩
      · cases cast
    · cases cast
      exact Or.inl ⟨_, _, first, rfl⟩
    · cases cast
  · cases done

end Stmt

/-- Statements in order up to a return, whose operands are the result. Without one there are no
results. -/
def exec (config : Config) : Env → List Stmt → Table Cell → Option (List Value) × Table Cell
  | _, [], cells => (some [], cells)
  | env, s :: rest, cells =>
    if s.kind = .ret then (s.operands.mapM (env.lookup ·), cells)
    else
      match s.act? config env cells with
      | none => (none, cells)
      | some (values, after) => exec config (bindAll s.defs values env) rest after

namespace Item

def kind : Item → OpKind
  | .op s => s.kind
  | .func sym _ _ => .func sym

end Item

def OpKind.cell? : OpKind → Option (String × Cell)
  | .global cell => some (cell.sym, ⟨cell.ty.elem, cell.init⟩)
  | _ => none

def argOf? (ty : Ty) (arg : Nat) : Option Value :=
  match ty with
  | .int ty => some (.ofNat ty arg)
  | _ => none

/-- Numbers as values of parameter types, if there is one for each. -/
def argValues? (types : List Ty) (args : List Nat) : Option (List Value) :=
  if types.length = args.length then (types.zip args).mapM fun (ty, arg) => argOf? ty arg else none

namespace Outline

def cells (o : Outline) : Table Cell :=
  (o.filterMap fun item => item.kind.cell?).foldl (fun cells (sym, cell) => cells.put sym cell) []

def function? (o : Outline) (name : String) : Option (List (ValueId × Ty) × List Stmt) :=
  match o.find? fun item => item.kind.defines name with
  | some (.func _ params body) => some (params, body)
  | _ => none

def callInts (config : Config) (o : Outline) (name : String) (args : List Nat)
    (cells : Table Cell) : Option (List Value) × Table Cell :=
  match o.function? name with
  | none => (none, cells)
  | some (params, body) =>
    match argValues? (params.map Prod.snd) args with
    | none => (none, cells)
    | some values => exec config (bindAll (params.map Prod.fst) values []) body cells

/-- The answers to calls, with the cells after each. -/
def session (config : Config) (o : Outline) :
    Table Cell → List (String × List Nat) → List (Option (List Value) × Table Cell)
  | _, [] => []
  | cells, (name, args) :: rest =>
    let outcome := o.callInts config name args cells
    outcome :: o.session config outcome.2 rest

end Outline

/-- The answers to calls, with the machine after each. A call that fails has no answer. -/
def Evaluator.session (ev : Evaluator) :
    Machine → List (String × List Nat) → List (Option (List Value) × Machine)
  | _, [] => []
  | m, (name, args) :: rest =>
    match ev.callInts name args m with
    | .ok values after => (some values, after) :: ev.session after rest
    | .error _ after => (none, after) :: ev.session after rest

section

variable {p : Program} {parent : Option OpId} {id : OpId} {s : Stmt} {loc : Option Loc}

@[simp] theorem toOption_ok {ε α : Type} (a : α) : (Except.ok a : Except ε α).toOption = some a := rfl

@[simp] theorem toOption_error {ε α : Type} (reason : ε) :
    (Except.error reason : Except ε α).toOption = none := rfl

theorem toOption_bind {ε α β : Type} (first : Except ε α) (next : α → Except ε β) :
    (first >>= next).toOption = first.toOption.bind fun a => (next a).toOption := by
  cases first with
  | error reason => rfl
  | ok a => rfl

theorem toOption_map {ε α β : Type} (f : α → β) (outcome : Except ε α) :
    (outcome.map f).toOption = outcome.toOption.map f := by
  cases outcome with
  | error reason => rfl
  | ok a => rfl

theorem toOption_mapM {ε α β : Type} (f : α → Except ε β) (items : List α) :
    (items.mapM f).toOption = items.mapM fun a => (f a).toOption := by
  induction items with
  | nil => rfl
  | cons head rest ih =>
    simp only [List.mapM_cons, toOption_bind, ih]
    rfl

namespace Evaluator

theorem fetch_toOption (env : Env) (v : ValueId) : (fetch env v).toOption = env.lookup v := by
  unfold fetch
  cases env.lookup v <;> rfl

theorem operand_toOption (env : Env) (index : Nat) :
    (operand env (s.toOp parent loc) index).toOption = s.operand? env index := by
  unfold operand Stmt.operand?
  rw [Stmt.operands_toOp]
  cases s.operands[index]? with
  | none => rfl
  | some v => exact fetch_toOption env v

theorem intOperand_toOption (env : Env) (index : Nat) :
    (intOperand env (s.toOp parent loc) index).toOption = s.int? env index := by
  unfold intOperand Stmt.int?
  rw [toOption_bind, operand_toOption]
  cases s.operand? env index with
  | none => rfl
  | some value => cases value <;> rfl

theorem cellOperand_toOption (env : Env) (index : Nat) :
    (cellOperand env (s.toOp parent loc) index).toOption = s.cell? env index := by
  unfold cellOperand Stmt.cell?
  rw [toOption_bind, operand_toOption]
  cases s.operand? env index with
  | none => rfl
  | some value => cases value <;> rfl

theorem resultTy_toOption (types : p.Types s.results) :
    (resultTy p (s.toOp parent loc)).toOption = s.types.head? := by
  unfold resultTy Op.result?
  rw [Stmt.results_toOp, Stmt.defs, Stmt.types]
  cases results : s.results with
  | nil => rfl
  | cons head rest =>
    have typed : p.typeOf head.1 = .ok head.2 := types head.1 head.2 (by simp [results])
    simp [typed]

theorem intResult_toOption (types : p.Types s.results) (bits : Nat) :
    (intResult p (s.toOp parent loc) bits).toOption = s.intResult? bits := by
  unfold intResult Stmt.intResult?
  rw [toOption_bind, resultTy_toOption types]
  cases s.types.head? with
  | none => rfl
  | some ty => cases ty <;> rfl

theorem castTo_toOption (op : Op) (ty : Ty) (value : Value) :
    (castTo op ty value).toOption = Stmt.castTo? ty value := by
  unfold castTo Stmt.castTo?
  cases value with
  | tensor source elems =>
    cases ty with
    | tensor shape elem =>
      dsimp only
      split <;> rfl
    | _ => rfl
  | _ => cases ty <;> rfl

/-- An operation that depends on its operands alone computes what its statement does. -/
theorem pureStep?_toOption (types : p.Types s.results) (env : Env)
    {outcome : Except EvalError (List Value)}
    (pure : pureStep? p env (s.toOp parent loc) = some outcome) :
    outcome.toOption = s.compute? env := by
  unfold pureStep? at pure
  unfold Stmt.compute?
  cases kind : s.kind with
  | constant value =>
    simp only [Stmt.kind_toOp, kind] at pure
    cases pure
    exact intResult_toOption types value
  | addi =>
    simp only [Stmt.kind_toOp, kind] at pure
    cases pure
    simp only [toOption_bind, intOperand_toOption, intResult_toOption types]
    rfl
  | shrui =>
    simp only [Stmt.kind_toOp, kind] at pure
    cases pure
    simp only [toOption_bind, intOperand_toOption, intResult_toOption types]
    rfl
  | trunci =>
    simp only [Stmt.kind_toOp, kind] at pure
    cases pure
    simp only [toOption_bind, intOperand_toOption, intResult_toOption types]
    rfl
  | extui =>
    simp only [Stmt.kind_toOp, kind] at pure
    cases pure
    simp only [toOption_bind, intOperand_toOption, intResult_toOption types]
    rfl
  | extsi =>
    simp only [Stmt.kind_toOp, kind] at pure
    cases pure
    simp only [toOption_bind, intOperand_toOption, intResult_toOption types,
      resultTy_toOption types]
    rfl
  | fromElements =>
    simp only [Stmt.kind_toOp, kind] at pure
    cases pure
    simp only [toOption_bind, toOption_mapM, toOption_map, intOperand_toOption,
      resultTy_toOption types, Stmt.operands_toOp]
    refine Option.bind_congr fun ty _ => Option.bind_congr fun elems _ => ?_
    split <;> rfl
  | cast =>
    simp only [Stmt.kind_toOp, kind] at pure
    cases pure
    simp only [toOption_bind, operand_toOption, castTo_toOption, resultTy_toOption types]
    rfl
  | _ => simp [kind] at pure

theorem updateParts_toOption (types : p.Types s.results) (counterBits : Nat) (env : Env) :
    (updateParts p counterBits env (s.toOp parent loc)).toOption = s.update? counterBits env := by
  unfold updateParts Stmt.update?
  simp only [toOption_bind, intOperand_toOption, resultTy_toOption types]
  refine Option.bind_congr fun delta _ => Option.bind_congr fun ty _ => ?_
  split
  · rfl
  · split
    · rfl
    · split <;> rfl

/-- The answer of a step and the cells after it. -/
def outcome {α : Type} : EStateM.Result EvalError Machine α → Option α × Table Cell
  | .ok a m => (some a, m.cells)
  | .error _ m => (none, m.cells)

theorem outcome_ofExcept_bind {α β : Type} (result : Except EvalError α) (next : α → Eval β)
    (m : Machine) :
    outcome ((ofExcept result >>= next) m) =
      match result.toOption with
      | some a => outcome (next a m)
      | none => (none, m.cells) := by
  cases result <;> rfl

theorem outcome_ofExcept {α : Type} (result : Except EvalError α) (m : Machine) :
    outcome (ofExcept result m) = (result.toOption, m.cells) := by
  cases result <;> rfl

theorem outcome_bind {α β : Type} (first : Eval α) (next : α → Eval β) (m : Machine) :
    outcome ((first >>= next) m) =
      match first m with
      | .ok a after => outcome (next a after)
      | .error _ after => (none, after.cells) := by
  change outcome (EStateM.bind first next m) = _
  unfold EStateM.bind
  cases first m with
  | ok a after => rfl
  | error reason after => rfl

theorem outcome_report_bind {β : Type} (event : Event) (next : Unit → Eval β) (m : Machine) :
    outcome ((report event >>= next) m) =
      outcome (next () { m with events := m.events.push event }) := rfl

theorem outcome_get_bind {β : Type} (next : Machine → Eval β) (m : Machine) :
    outcome ((get >>= next) m) = outcome (next m m) := rfl

theorem outcome_setGlobal_bind {β : Type} (sym : String) (value : Nat) (next : Unit → Eval β)
    (m : Machine) :
    outcome ((setGlobal sym value >>= next) m) =
      match m.cell? sym with
      | none => (none, m.cells)
      | some cell =>
        outcome (next () (m.putCell sym { cell with value := truncate cell.elem.bits value })) := by
  simp only [setGlobal, bind_assoc, outcome_get_bind]
  cases m.cell? sym with
  | none => rfl
  | some cell => rfl

theorem outcome_pure {α : Type} (a : α) (m : Machine) :
    outcome ((pure a : Eval α) m) = (some a, m.cells) := rfl

theorem outcome_throw {α : Type} (reason : EvalError) (m : Machine) :
    outcome ((throw reason : Eval α) m) = (none, m.cells) := rfl

/-- An operation that is evaluated computes what its statement does. -/
theorem step_outcome (types : p.Types s.results) (config : Config) (env : Env) (m : Machine) :
    outcome (step ⟨p, config⟩ env (s.toOp parent loc) m) =
      match s.act? config env m.cells with
      | some (values, cells) => (some values, cells)
      | none => (none, m.cells) := by
  unfold step
  cases isPure : pureStep? p env (s.toOp parent loc) with
  | some result =>
    have act : s.act? config env m.cells = (s.compute? env).map fun values => (values, m.cells) := by
      unfold pureStep? at isPure
      unfold Stmt.act?
      cases kind : s.kind <;> simp_all
    rw [act, ← pureStep?_toOption types env isPure]
    cases result <;> rfl
  | none =>
    have noCompute : s.compute? env = none := by
      unfold pureStep? at isPure
      unfold Stmt.compute?
      cases kind : s.kind <;> simp_all
    unfold Stmt.act?
    cases kind : s.kind with
    | getGlobal sym =>
      simp only [Stmt.kind_toOp, kind, outcome_get_bind]
      rw [show m.cells.lookup sym = m.cell? sym from rfl]
      cases m.cell? sym with
      | none => rfl
      | some cell => rfl
    | load =>
      simp only [Stmt.kind_toOp, kind, outcome_ofExcept_bind, cellOperand_toOption,
        outcome_get_bind, Machine.cell?]
      cases s.cell? env 0 with
      | none => rfl
      | some sym =>
        dsimp only
        cases found : m.cells.lookup sym with
        | none => simp [found, outcome_throw]
        | some cell => simp [found, outcome_pure]
    | store =>
      simp only [Stmt.kind_toOp, kind, outcome_ofExcept_bind, intOperand_toOption,
        cellOperand_toOption]
      cases s.int? env 0 with
      | none => rfl
      | some value =>
        cases s.cell? env 1 with
        | none => rfl
        | some sym =>
          simp only [outcome_setGlobal_bind, Machine.cell?]
          cases found : m.cells.lookup sym with
          | none => simp [found]
          | some cell => simp [found, outcome_pure, Machine.putCell]
    | rngUpdate =>
      simp only [Stmt.kind_toOp, kind, stateUpdate, outcome_ofExcept_bind, updateParts_toOption types]
      cases s.update? config.counterBits env with
      | none => rfl
      | some parts => rfl
    | _ => simp [kind, noCompute, outcome_throw]

theorem runOps_outcome {region : List OpId} {body : List Stmt}
    (holds : List.Forall₂ (p.HoldsStmt parent) region body) (config : Config) (env : Env)
    (m : Machine) :
    outcome (runOps ⟨p, config⟩ env region m) = exec config env body m.cells := by
  induction holds generalizing env m with
  | nil => rfl
  | @cons id s _ rest head _ ih =>
    obtain ⟨loc, found⟩ := head.op
    simp only [runOps, found, exec]
    by_cases isRet : s.kind = .ret
    · have opRet : (s.toOp parent loc).kind = .ret := isRet
      rw [if_pos opRet, if_pos isRet, outcome_ofExcept, toOption_mapM]
      simp only [fetch_toOption, Stmt.operands_toOp]
    · have opOther : (s.toOp parent loc).kind ≠ .ret := isRet
      rw [if_neg opOther, if_neg isRet, outcome_report_bind, outcome_bind]
      have stepped : outcome (step ⟨p, config⟩ env (s.toOp parent loc)
          { m with events := m.events.push (.evaluating id (s.toOp parent loc).name) }) = _ :=
        step_outcome head.types config env _
      dsimp only at stepped
      cases result : step ⟨p, config⟩ env (s.toOp parent loc)
          { m with events := m.events.push (.evaluating id (s.toOp parent loc).name) } with
      | ok values after =>
        rw [result] at stepped
        cases acted : s.act? config env m.cells with
        | none =>
          rw [acted] at stepped
          cases stepped
        | some pair =>
          rw [acted] at stepped
          obtain ⟨sameValues, sameCells⟩ := Prod.mk.inj stepped
          obtain ⟨actValues, actCells⟩ := pair
          cases sameValues
          cases sameCells
          exact ih _ after
      | error reason after =>
        rw [result] at stepped
        cases acted : s.act? config env m.cells with
        | none =>
          rw [acted] at stepped
          exact stepped
        | some pair =>
          rw [acted] at stepped
          cases stepped

end Evaluator

end

/-- What is found first in a body is found first in the outline. -/
theorem forall₂_find? {α β : Type} {R : α → β → Prop} {left : List α} {right : List β}
    (all : List.Forall₂ R left right) {f : α → Bool} {g : β → Bool}
    (same : ∀ a b, R a b → f a = g b) :
    left.find? f = none ∧ right.find? g = none ∨
      ∃ a b, left.find? f = some a ∧ right.find? g = some b ∧ R a b := by
  induction all with
  | nil => exact Or.inl ⟨rfl, rfl⟩
  | @cons a b _ _ head _ ih =>
    simp only [List.find?_cons, same a b head]
    cases g b with
    | true => exact Or.inr ⟨a, b, rfl, rfl, head⟩
    | false => exact ih

namespace Program

theorem HoldsItem.kind {p : Program} {id : OpId} {item : Item} (holds : p.HoldsItem id item) :
    (p.op? id).map Op.kind = some item.kind := by
  cases item with
  | op s =>
    obtain ⟨loc, found⟩ := HoldsStmt.op holds
    simp [found, Item.kind]
  | func sym params body =>
    obtain ⟨region, func⟩ := holds
    obtain ⟨loc, found⟩ := func.op
    simp [found, Item.kind, funcOp]

theorem HoldsItem.any_kind {p : Program} {id : OpId} {item : Item} (holds : p.HoldsItem id item)
    (test : OpKind → Bool) : ((p.op? id).any fun op => test op.kind) = test item.kind := by
  have kind := holds.kind
  cases found : p.op? id with
  | none => simp [found] at kind
  | some op =>
    rw [found] at kind
    rw [Option.any_some, ← Option.some.inj kind]

/-- The function of a name, as the program holds it. -/
theorem function?_eq {p : Program} {o : Outline} (rep : p.Represents o) (name : String) :
    p.function? name = none ∧ o.function? name = none ∨
      ∃ id sym params body region, p.function? name = some id ∧
        o.function? name = some (params, body) ∧ Item.func sym params body ∈ o ∧
        p.HoldsFunc id sym params body region := by
  unfold Program.function? Program.lookupSymbol? Outline.function?
  rcases forall₂_find? rep.items (fun id item holds => holds.any_kind (·.defines name)) with
    ⟨none, outlineNone⟩ | ⟨id, item, found, outlineFound, holds⟩
  · exact Or.inl ⟨by simp [none], by simp [outlineNone]⟩
  · have isFunc : ((p.op? id).any fun op => op.kind.isFunc) = item.kind.isFunc :=
      holds.any_kind OpKind.isFunc
    have mem := List.mem_of_find?_eq_some outlineFound
    cases item with
    | op s =>
      have plain : s.kind.isFunc = false := HoldsStmt.plain holds
      refine Or.inl ⟨?_, by simp [outlineFound]⟩
      rw [found, Option.filter_some, isFunc]
      simp [Item.kind, plain]
    | func sym params body =>
      obtain ⟨region, func⟩ := holds
      refine Or.inr ⟨id, sym, params, body, region, ?_, by simp [outlineFound], mem, func⟩
      rw [found, Option.filter_some, isFunc]
      simp [Item.kind, OpKind.isFunc]

end Program

namespace Evaluator

theorem argFor_toOption {p : Program} {v : ValueId} {ty : Ty} (typed : p.typeOf v = .ok ty)
    (name : String) (arg : Nat) : (argFor p name v arg).toOption = argOf? ty arg := by
  unfold argFor argOf?
  rw [typed]
  cases ty <;> rfl

theorem functionOf_toOption {p : Program} {o : Outline} (rep : p.Represents o) (name : String)
    (count : Nat) :
    (functionOf p name count).toOption = none ∧
        (o.function? name).filter (fun func => func.1.length = count) = none ∨
      ∃ id sym params body region loc, functionOf p name count = .ok (funcOp sym params region loc) ∧
        o.function? name = some (params, body) ∧ params.length = count ∧
        p.HoldsFunc id sym params body region := by
  unfold functionOf
  rcases Program.function?_eq rep name with ⟨none, outlineNone⟩ |
    ⟨id, sym, params, body, region, found, outlineFound, -, func⟩
  · exact Or.inl ⟨by simp [none], by simp [outlineNone]⟩
  · obtain ⟨loc, op⟩ := func.op
    simp only [found, Option.bind_some, op, outlineFound, Option.filter_some]
    by_cases arity : params.length = count
    · refine Or.inr ⟨id, sym, params, body, region, loc, ?_, rfl, arity, func⟩
      simp [funcOp, arity]
    · exact Or.inl ⟨by simp [funcOp, arity], by simp [arity]⟩

theorem length_of_mapM {ε α β : Type} {f : α → Except ε β} {items : List α} {values : List β}
    (done : items.mapM f = .ok values) : values.length = items.length := by
  induction items generalizing values with
  | nil =>
    cases done
    rfl
  | cons head rest ih =>
    rw [List.mapM_cons] at done
    obtain ⟨value, -, done⟩ := bind_eq_ok.1 done
    obtain ⟨more, mapped, done⟩ := bind_eq_ok.1 done
    cases done
    simp [ih mapped]

/-- What a list of steps gives comes from the steps. -/
theorem exists_of_mem_mapM {ε α β : Type} {f : α → Except ε β} {items : List α} {results : List β}
    (done : items.mapM f = .ok results) {result : β} (mem : result ∈ results) :
    ∃ item ∈ items, f item = .ok result := by
  induction items generalizing results with
  | nil =>
    cases done
    cases mem
  | cons item rest ih =>
    rw [List.mapM_cons] at done
    obtain ⟨first, here, done⟩ := bind_eq_ok.mp done
    obtain ⟨others, later, done⟩ := bind_eq_ok.mp done
    cases done
    rcases List.mem_cons.mp mem with rfl | inOthers
    · exact ⟨item, by simp, here⟩
    · obtain ⟨other, inside, gives⟩ := ih later inOthers
      exact ⟨other, by simp [inside], gives⟩

theorem args_toOption {p : Program} {params : List (ValueId × Ty)} (types : p.Types params)
    (name : String) (args : List Nat) :
    (((params.map Prod.fst).zip args).mapM fun pair => argFor p name pair.1 pair.2).toOption =
      ((params.map Prod.snd).zip args).mapM fun (ty, arg) => argOf? ty arg := by
  rw [toOption_mapM]
  induction params generalizing args with
  | nil => rfl
  | cons param rest ih =>
    cases args with
    | nil => rfl
    | cons arg more =>
      have head : (argFor p name param.1 arg).toOption = argOf? param.2 arg :=
        argFor_toOption (types param.1 param.2 (by simp)) name arg
      have later := ih (fun v ty mem => types v ty (by simp [mem])) more
      simp only [List.map_cons, List.zip_cons_cons, List.mapM_cons, head, later]

/-- A call on a program has the answer of the call on its outline, and leaves the same cells. -/
theorem callInts_outcome {p : Program} {o : Outline} (rep : p.Represents o) (config : Config)
    (name : String) (args : List Nat) (m : Machine) :
    outcome (callInts ⟨p, config⟩ name args m) = o.callInts config name args m.cells := by
  have parts : callInts ⟨p, config⟩ name args = (do
      let op ← ofExcept (functionOf p name args.length)
      let values ← ofExcept ((op.args.zip args).mapM fun pair => argFor p name pair.1 pair.2)
      call ⟨p, config⟩ name values) := rfl
  unfold Outline.callInts argValues?
  rw [parts, outcome_ofExcept_bind]
  rcases functionOf_toOption rep name args.length with ⟨none, outlineNone⟩ |
    ⟨id, sym, params, body, region, loc, found, outlineFound, arity, func⟩
  · rw [none]
    cases outlineFound : o.function? name with
    | none => rfl
    | some pair =>
      have other : pair.1.length ≠ args.length := by
        simpa [outlineFound, Option.filter_some] using outlineNone
      simp [other]
  · rw [found, toOption_ok, outlineFound]
    simp only [List.length_map, if_pos arity]
    rw [outcome_ofExcept_bind]
    have argValues := args_toOption func.types name args
    cases values : ((params.map Prod.fst).zip args).mapM fun pair => argFor p name pair.1 pair.2 with
    | error reason =>
      have failed : ((funcOp sym params region loc).args.zip args).mapM (fun pair =>
        argFor p name pair.1 pair.2) = .error reason := values
      rw [values, toOption_error] at argValues
      rw [failed, ← argValues]
      rfl
    | ok list =>
      have bound : ((funcOp sym params region loc).args.zip args).mapM (fun pair =>
        argFor p name pair.1 pair.2) = .ok list := values
      have count : list.length = args.length := by
        rw [length_of_mapM values, List.length_zip, List.length_map, arity, Nat.min_self]
      rw [values, toOption_ok] at argValues
      rw [bound, ← argValues, toOption_ok]
      change outcome (call ⟨p, config⟩ name list m) = _
      unfold call
      rw [outcome_ofExcept_bind, count, found]
      exact runOps_outcome func.body config _ _

/-- The answers of a program to calls, and the cells after each, are those of its outline. -/
theorem session_outcome {p : Program} {o : Outline} (rep : p.Represents o) (config : Config)
    (m : Machine) (calls : List (String × List Nat)) :
    (session ⟨p, config⟩ m calls).map (fun entry => (entry.1, entry.2.cells)) =
      o.session config m.cells calls := by
  induction calls generalizing m with
  | nil => rfl
  | cons head rest ih =>
    obtain ⟨name, args⟩ := head
    have answer := callInts_outcome rep config name args m
    simp only [session, Outline.session, ← answer]
    cases callInts ⟨p, config⟩ name args m with
    | ok values after => simp [outcome, ih after]
    | error reason after => simp [outcome, ih after]

end Evaluator

/-- The cells that a program defines are those of its outline. -/
theorem Machine.filterMap_cellOf? {p : Program} {o : Outline} (rep : p.Represents o) :
    p.body.filterMap (Machine.cellOf? p) = o.filterMap fun item => item.kind.cell? := by
  have same : ∀ ids items, List.Forall₂ p.HoldsItem ids items →
      ids.filterMap (Machine.cellOf? p) = items.filterMap fun item => item.kind.cell? := by
    intro ids items all
    induction all with
    | nil => rfl
    | @cons id item _ _ head _ ih =>
      have cell : Machine.cellOf? p id = item.kind.cell? := by
        unfold Machine.cellOf? OpKind.cell?
        rw [head.kind]
        cases item.kind <;> rfl
      rw [List.filterMap_cons, List.filterMap_cons, cell, ih]
  exact same _ _ rep.items

/-- A program starts with the cells of its outline. -/
theorem Machine.cells_ofProgram {p : Program} {o : Outline} (rep : p.Represents o) :
    (Machine.ofProgram p).cells = o.cells := by
  unfold Machine.ofProgram Outline.cells
  rw [Machine.filterMap_cellOf? rep]

end RngLowering
