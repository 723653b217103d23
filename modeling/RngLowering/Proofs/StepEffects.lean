import RngLowering.Eval.Machine
import RngLowering.Outcome
import RngLowering.Proofs.Meaning

set_option autoImplicit false

namespace RngLowering.Evaluator

/-- What a step that succeeds computes, and the machine after it. -/
inductive Effect (ev : Evaluator) (env : Env) (op : Op) (m : Machine) : List Value → Machine → Prop
  | compute {values : List Value} (done : pureStep? ev.program env op = some (.ok values)) :
      Effect ev env op m values m
  | access {sym : String} {cell : Cell} (kind : op.kind = .getGlobal sym)
      (found : m.cell? sym = some cell) : Effect ev env op m [.ref sym] m
  | load {sym : String} {cell : Cell} (kind : op.kind = .load)
      (ref : cellOperand env op 0 = .ok sym) (found : m.cell? sym = some cell) :
      Effect ev env op m [.ofNat cell.elem cell.value] m
  | store {ty : IntTy} {value : Nat} {sym : String} {cell : Cell} (kind : op.kind = .store)
      (operand : intOperand env op 0 = .ok (ty, value)) (ref : cellOperand env op 1 = .ok sym)
      (found : m.cell? sym = some cell) :
      Effect ev env op m []
        (m.putCell sym { cell with value := truncate cell.elem.bits value })
  | update {deltaTy : IntTy} {delta : Nat} {ty : Ty} (kind : op.kind = .rngUpdate)
      (parts : updateParts ev.program ev.config.counterBits env op = .ok (deltaTy, delta, ty)) :
      Effect ev env op m
        [.tensor ty (chunks (counterCell ev.config m).value ty.width ty.count)]
        (m.putCell ev.config.stateSymbol (advance (counterCell ev.config m) deltaTy delta))

section

variable {ev : Evaluator} {env : Env} {op : Op} {m after : Machine} {values : List Value}
  {reason : EvalError}

theorem ofExcept_eq_ok {α : Type} {outcome : Except EvalError α} {a : α} :
    ofExcept outcome m = .ok a after ↔ outcome = .ok a ∧ after = m := by
  cases outcome with
  | error reason => simp [ofExcept]
  | ok b => simp [ofExcept, eq_comm]

theorem ofExcept_eq_error {α : Type} {outcome : Except EvalError α} :
    ofExcept outcome m = .error reason after ↔ outcome = .error reason ∧ after = m := by
  cases outcome with
  | error other => simp [ofExcept, eq_comm]
  | ok b => simp [ofExcept]

theorem quiet_of_pureStep? {p : Program} {outcome : Except EvalError (List Value)}
    (isPure : pureStep? p env op = some outcome) : op.kind ≠ .store ∧ op.kind ≠ .rngUpdate := by
  constructor <;>
    · intro kind
      simp [pureStep?, kind] at isPure

theorem setGlobal_eq (sym : String) (value : Nat) (m : Machine) :
    setGlobal sym value m =
      match m.cell? sym with
      | none => .error (.missingGlobal sym) m
      | some cell => .ok () (m.putCell sym { cell with value := truncate cell.elem.bits value }) := by
  change (match m.cell? sym with
    | none => throw (.missingGlobal sym)
    | some cell => modify (·.putCell sym { cell with value := truncate cell.elem.bits value }) :
      Eval Unit) m = _
  cases m.cell? sym with
  | none => rfl
  | some cell => rfl

/-- An access to a cell looks whether it is there. -/
theorem access_eq (sym : String) (m : Machine) :
    (do if ((← get).cell? sym).isNone then throw (.missingGlobal sym)
        return [.ref sym] : Eval (List Value)) m =
      match m.cell? sym with
      | none => .error (.missingGlobal sym) m
      | some _ => .ok [.ref sym] m := by
  change (do if (m.cell? sym).isNone then throw (.missingGlobal sym)
             return [.ref sym] : Eval (List Value)) m = _
  cases m.cell? sym with
  | none => rfl
  | some cell => rfl

theorem effect_of_step (done : ev.step env op m = .ok values after) :
    Effect ev env op m values after := by
  unfold step at done
  cases isPure : pureStep? ev.program env op with
  | some outcome =>
    rw [isPure] at done
    obtain ⟨computed, rfl⟩ := ofExcept_eq_ok.mp done
    exact .compute (computed ▸ isPure)
  | none =>
    rw [isPure] at done
    cases kind : op.kind with
    | getGlobal sym =>
      simp only [kind] at done
      rw [access_eq] at done
      split at done
      · cases done
      · rename_i cell found
        cases done
        exact .access kind found
    | load =>
      simp only [kind] at done
      obtain ⟨sym, _, reads, loads⟩ := seq_eq_ok.mp done
      obtain ⟨ref, rfl⟩ := ofExcept_eq_ok.mp reads
      obtain ⟨_, _, ⟨⟩, gives⟩ := seq_eq_ok.mp loads
      cases found : Machine.cell? _ sym with
      | none =>
        rw [found] at gives
        cases gives
      | some cell =>
        rw [found] at gives
        cases gives
        exact .load kind ref found
    | store =>
      simp only [kind] at done
      obtain ⟨⟨ty, value⟩, _, reads, refers⟩ := seq_eq_ok.mp done
      obtain ⟨operand, rfl⟩ := ofExcept_eq_ok.mp reads
      obtain ⟨sym, _, readsCell, stores⟩ := seq_eq_ok.mp refers
      obtain ⟨ref, rfl⟩ := ofExcept_eq_ok.mp readsCell
      obtain ⟨_, _, sets, gives⟩ := seq_eq_ok.mp stores
      rw [setGlobal_eq] at sets
      split at sets
      · cases sets
      · rename_i cell found
        cases sets
        cases gives
        exact .store kind operand ref found
    | rngUpdate =>
      simp only [kind] at done
      obtain ⟨⟨deltaTy, delta, ty⟩, _, reads, gives⟩ := seq_eq_ok.mp done
      obtain ⟨parts, rfl⟩ := ofExcept_eq_ok.mp reads
      cases gives
      exact .update kind parts
    | _ =>
      simp only [kind] at done
      cases done

/-- A step that fails leaves the machine as it was. -/
theorem eq_of_step_error (fails : ev.step env op m = .error reason after) : after = m := by
  unfold step at fails
  cases isPure : pureStep? ev.program env op with
  | some outcome =>
    rw [isPure] at fails
    exact (ofExcept_eq_error.mp fails).2
  | none =>
    rw [isPure] at fails
    cases kind : op.kind with
    | getGlobal sym =>
      simp only [kind] at fails
      rw [access_eq] at fails
      split at fails
      · cases fails
        rfl
      · cases fails
    | load =>
      simp only [kind] at fails
      rcases seq_eq_error.mp fails with first | ⟨sym, _, reads, loads⟩
      · exact (ofExcept_eq_error.mp first).2
      · obtain ⟨ref, rfl⟩ := ofExcept_eq_ok.mp reads
        rcases seq_eq_error.mp loads with ⟨⟨⟩⟩ | ⟨_, _, ⟨⟩, missing⟩
        cases found : Machine.cell? _ sym with
        | none =>
          rw [found] at missing
          cases missing
          rfl
        | some cell =>
          rw [found] at missing
          cases missing
    | store =>
      simp only [kind] at fails
      rcases seq_eq_error.mp fails with first | ⟨⟨ty, value⟩, _, reads, refers⟩
      · exact (ofExcept_eq_error.mp first).2
      · obtain ⟨operand, rfl⟩ := ofExcept_eq_ok.mp reads
        rcases seq_eq_error.mp refers with second | ⟨sym, _, readsCell, stores⟩
        · exact (ofExcept_eq_error.mp second).2
        · obtain ⟨ref, rfl⟩ := ofExcept_eq_ok.mp readsCell
          rcases seq_eq_error.mp stores with sets | ⟨_, _, _, ⟨⟩⟩
          rw [setGlobal_eq] at sets
          split at sets
          · cases sets
            rfl
          · cases sets
    | rngUpdate =>
      simp only [kind] at fails
      rcases seq_eq_error.mp fails with first | ⟨_, _, _, ⟨⟩⟩
      exact (ofExcept_eq_error.mp first).2
    | _ =>
      simp only [kind] at fails
      cases fails
      rfl

end

/-- A step that succeeded: the operation, what was bound before it, what it gave, and the machine after
it. -/
structure Executed where
  env : Env
  op : Op
  values : List Value
  after : Machine

def machineOf {α : Type} : EStateM.Result EvalError Machine α → Machine
  | .ok _ m => m
  | .error _ m => m

/-- The steps that operations take, in order, and how they end. -/
def traceOps (ev : Evaluator) : Env → List OpId → Machine →
    List Executed × EStateM.Result EvalError Machine (List Value)
  | _, [], m => ([], .ok [] m)
  | env, id :: rest, m =>
    match ev.program.op? id with
    | none => ev.traceOps env rest m
    | some op =>
      if op.kind = .ret then ([], ofExcept (op.operands.mapM (fetch env)) m)
      else
        match ev.step env op { m with events := m.events.push (.evaluating id op.name) } with
        | .error reason after => ([], .error reason after)
        | .ok values after =>
          let run := ev.traceOps (bindAll op.results values env) rest after
          (⟨env, op, values, after⟩ :: run.1, run.2)

def traceCall (ev : Evaluator) (name : String) (args : List Nat) (m : Machine) :
    List Executed × EStateM.Result EvalError Machine (List Value) :=
  match functionOf ev.program name args.length with
  | .error reason => ([], .error reason m)
  | .ok op =>
    match (op.args.zip args).mapM fun (param, arg) => argFor ev.program name param arg with
    | .error reason => ([], .error reason m)
    | .ok values =>
      ev.traceOps (bindAll op.args values []) op.region
        { m with events := m.events.push (.calling name values.length) }

def trace (ev : Evaluator) : Machine → List (String × List Nat) → List Executed × Machine
  | m, [] => ([], m)
  | m, (name, args) :: rest =>
    let call := ev.traceCall name args m
    let more := ev.trace (machineOf call.2) rest
    (call.1 ++ more.1, more.2)

section

variable {ev : Evaluator} {m : Machine}

/-- The steps are those of the run. -/
theorem traceOps_snd (env : Env) (ids : List OpId) (m : Machine) :
    (ev.traceOps env ids m).2 = ev.runOps env ids m := by
  induction ids generalizing env m with
  | nil => rfl
  | cons id rest ih =>
    unfold traceOps runOps
    cases ev.program.op? id with
    | none => exact ih env m
    | some op =>
      dsimp only
      split
      · rfl
      · change _ = (ev.step env op >>= fun values => ev.runOps (bindAll op.results values env) rest)
          { m with events := m.events.push (.evaluating id op.name) }
        simp only [Bind.bind, EStateM.bind]
        cases ev.step env op { m with events := m.events.push (.evaluating id op.name) } with
        | error reason after => rfl
        | ok values after => exact ih (bindAll op.results values env) after

theorem arity_of_functionOf {p : Program} {name : String} {count : Nat} {op : Op}
    (found : functionOf p name count = .ok op) : op.args.length = count := by
  unfold functionOf at found
  split at found
  · cases found
  · split at found
    · rename_i arity
      cases found
      exact arity
    · cases found

theorem traceCall_snd (name : String) (args : List Nat) (m : Machine) :
    (ev.traceCall name args m).2 = ev.callInts name args m := by
  unfold traceCall callInts
  cases found : functionOf ev.program name args.length with
  | error reason => rfl
  | ok op =>
    dsimp only
    cases bound : (op.args.zip args).mapM fun (param, arg) => argFor ev.program name param arg with
    | error reason =>
      simp only [Bind.bind, EStateM.bind, ofExcept, bound]
    | ok values =>
      have count : values.length = args.length := by
        rw [length_of_mapM bound, List.length_zip, arity_of_functionOf found, Nat.min_self]
      simp only [Bind.bind, EStateM.bind, ofExcept, bound, call, count, found]
      rw [traceOps_snd]
      rfl

/-- The machine after calls is that of their session. -/
theorem trace_snd (m : Machine) (calls : List (String × List Nat)) :
    (ev.trace m calls).2 = ((ev.session m calls).getLast?.map Prod.snd).getD m := by
  induction calls generalizing m with
  | nil => rfl
  | cons head rest ih =>
    obtain ⟨name, args⟩ := head
    have answer : (ev.traceCall name args m).2 = _ := traceCall_snd name args m
    have last : ∀ (entry : Option (List Value) × Machine) (more : List (Option (List Value) × Machine)),
        ((entry :: more).getLast?.map Prod.snd).getD m = (more.getLast?.map Prod.snd).getD entry.2 := by
      intro entry more
      rw [List.getLast?_cons]
      cases more.getLast? with
      | none => rfl
      | some final => rfl
    unfold trace session
    dsimp only
    rw [answer]
    cases ev.callInts name args m with
    | ok values after => rw [last, ih]; rfl
    | error reason after => rw [last, ih]; rfl

/-- Steps that lead from cells to cells, each from those that the one before left. -/
inductive Follows (ev : Evaluator) : Table Cell → List Executed → Table Cell → Prop
  | nil (cells : Table Cell) : Follows ev cells [] cells
  | cons {m : Machine} {e : Executed} {rest : List Executed} {last : Table Cell}
      (stepped : ev.step e.env e.op m = .ok e.values e.after)
      (later : Follows ev e.after.cells rest last) : Follows ev m.cells (e :: rest) last

theorem Follows.append {first second : List Executed} {cells middle last : Table Cell}
    (left : ev.Follows cells first middle) (right : ev.Follows middle second last) :
    ev.Follows cells (first ++ second) last := by
  induction left with
  | nil cells => exact right
  | cons stepped _ ih => exact .cons stepped (ih right)

theorem follows_traceOps (env : Env) (ids : List OpId) (m : Machine) :
    ev.Follows m.cells (ev.traceOps env ids m).1 (machineOf (ev.traceOps env ids m).2).cells := by
  induction ids generalizing env m with
  | nil => exact .nil m.cells
  | cons id rest ih =>
    unfold traceOps
    split
    · exact ih env m
    · rename_i op found
      split
      · cases op.operands.mapM (fetch env) with
        | error reason => exact .nil m.cells
        | ok values => exact .nil m.cells
      · split
        · rename_i reason after fails
          have same := eq_of_step_error fails
          rw [same]
          exact .nil m.cells
        · rename_i values after stepped
          exact .cons (m := { m with events := m.events.push (.evaluating id op.name) })
            (e := ⟨env, op, values, after⟩) stepped (ih (bindAll op.results values env) after)

theorem follows_traceCall (name : String) (args : List Nat) (m : Machine) :
    ev.Follows m.cells (ev.traceCall name args m).1 (machineOf (ev.traceCall name args m).2).cells := by
  unfold traceCall
  split
  · exact .nil m.cells
  · split
    · exact .nil m.cells
    · rename_i op _ _ values _
      exact follows_traceOps (bindAll op.args values []) op.region
        { m with events := m.events.push (.calling name values.length) }

/-- The steps of calls follow one another, across the calls. -/
theorem follows_trace (m : Machine) (calls : List (String × List Nat)) :
    ev.Follows m.cells (ev.trace m calls).1 (ev.trace m calls).2.cells := by
  induction calls generalizing m with
  | nil => exact .nil m.cells
  | cons head rest ih =>
    exact (follows_traceCall head.1 head.2 m).append (ih (machineOf (ev.traceCall head.1 head.2 m).2))

end

end RngLowering.Evaluator
