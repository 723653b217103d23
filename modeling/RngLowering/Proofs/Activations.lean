import Mathlib.Logic.Relation
import RngLowering.Proofs.StepEffects

set_option autoImplicit false

namespace RngLowering

def Machine.log (m : Machine) (event : Event) : Machine := { m with events := m.events.push event }

@[simp] theorem Machine.cells_log (m : Machine) (event : Event) : (m.log event).cells = m.cells := rfl

/-- A call under way: what is bound, the operations that are left, and the machine. -/
structure Activation where
  env : Env
  left : List OpId
  machine : Machine

namespace Evaluator

abbrev Answer := EStateM.Result EvalError Machine (List Value)

/-- A call goes past an operation: one that is gone, or one that is evaluated and binds its results. -/
inductive Next (ev : Evaluator) : Activation → Activation → Prop
  | skip {env : Env} {id : OpId} {left : List OpId} {m : Machine} (gone : ev.program.op? id = none) :
      Next ev ⟨env, id :: left, m⟩ ⟨env, left, m⟩
  | step {env : Env} {id : OpId} {left : List OpId} {m after : Machine} {op : Op} {values : List Value}
      (found : ev.program.op? id = some op) (goesOn : op.kind ≠ .ret)
      (done : ev.step env op (m.log (.evaluating id op.name)) = .ok values after) :
      Next ev ⟨env, id :: left, m⟩ ⟨bindAll op.results values env, left, after⟩

/-- A call comes no further, and this is its answer. -/
inductive Ends (ev : Evaluator) : Activation → Answer → Prop
  | finish {env : Env} {m : Machine} : Ends ev ⟨env, [], m⟩ (.ok [] m)
  | ret {env : Env} {id : OpId} {left : List OpId} {m : Machine} {op : Op}
      (found : ev.program.op? id = some op) (isRet : op.kind = .ret) :
      Ends ev ⟨env, id :: left, m⟩ (ofExcept (op.operands.mapM (fetch env)) m)
  | fail {env : Env} {id : OpId} {left : List OpId} {m after : Machine} {op : Op} {reason : EvalError}
      (found : ev.program.op? id = some op) (goesOn : op.kind ≠ .ret)
      (fails : ev.step env op (m.log (.evaluating id op.name)) = .error reason after) :
      Ends ev ⟨env, id :: left, m⟩ (.error reason after)

def enter (ev : Evaluator) (name : String) (args : List Value) (m : Machine) :
    Except EvalError Activation := do
  let op ← functionOf ev.program name args.length
  return ⟨bindAll op.args args [], op.region, m.log (.calling name args.length)⟩

def enterInts (ev : Evaluator) (name : String) (args : List Nat) (m : Machine) :
    Except EvalError Activation := do
  let op ← functionOf ev.program name args.length
  let values ← (op.args.zip args).mapM fun (param, arg) => argFor ev.program name param arg
  return ⟨bindAll op.args values [], op.region, m.log (.calling name values.length)⟩

section

variable {ev : Evaluator} {m : Machine} {name : String}

theorem runOps_of_goesOn {env : Env} {id : OpId} {op : Op} (found : ev.program.op? id = some op)
    (goesOn : op.kind ≠ .ret) (left : List OpId) (m : Machine) :
    ev.runOps env (id :: left) m =
      (ev.step env op >>= fun values => ev.runOps (bindAll op.results values env) left)
        (m.log (.evaluating id op.name)) := by
  rw [runOps]
  simp only [found, if_neg goesOn]
  rfl

/-- Evaluating operations in order means to go past them up to the one that it ends with. -/
theorem exists_ends (env : Env) (ids : List OpId) (m : Machine) :
    ∃ last, Relation.ReflTransGen ev.Next ⟨env, ids, m⟩ last ∧ ev.Ends last (ev.runOps env ids m) := by
  induction ids generalizing env m with
  | nil => exact ⟨_, .refl, .finish⟩
  | cons id left ih =>
    cases found : ev.program.op? id with
    | none =>
      obtain ⟨last, steps, ends⟩ := ih env m
      refine ⟨last, steps.head (.skip found), ?_⟩
      unfold runOps
      simpa only [found] using ends
    | some op =>
      by_cases isRet : op.kind = .ret
      · refine ⟨_, .refl, ?_⟩
        unfold runOps
        simp only [found, if_pos isRet]
        exact .ret found isRet
      · rw [runOps_of_goesOn found isRet]
        cases done : ev.step env op (m.log (.evaluating id op.name)) with
        | error reason after =>
          rw [bind_of_error done]
          exact ⟨_, .refl, .fail found isRet done⟩
        | ok values after =>
          rw [bind_of_ok done]
          obtain ⟨last, steps, ends⟩ := ih (bindAll op.results values env) after
          exact ⟨last, steps.head (.step found isRet done), ends⟩

theorem call_of_enter_error {args : List Value} {reason : EvalError}
    (refused : ev.enter name args m = .error reason) : ev.call name args m = .error reason m := by
  unfold enter at refused
  unfold call
  cases found : functionOf ev.program name args.length with
  | error other =>
    rw [found] at refused
    cases refused
    rfl
  | ok op =>
    rw [found] at refused
    cases refused

theorem call_of_enter_ok {args : List Value} {start : Activation}
    (entered : ev.enter name args m = .ok start) :
    ev.call name args m = ev.runOps start.env start.left start.machine := by
  unfold enter at entered
  unfold call
  obtain ⟨op, found, start⟩ := bind_eq_ok.mp entered
  cases start
  rw [found]
  rfl

/-- A call with numbers is refused as its start is, or a call with values that starts alike. -/
theorem callInts_cases (name : String) (args : List Nat) (m : Machine) :
    (∃ reason, ev.enterInts name args m = .error reason ∧ ev.callInts name args m = .error reason m) ∨
      ∃ values, ev.enterInts name args m = ev.enter name values m ∧
        ev.callInts name args m = ev.call name values m := by
  unfold enterInts callInts
  cases found : functionOf ev.program name args.length with
  | error reason => exact .inl ⟨reason, rfl, rfl⟩
  | ok op =>
    rw [ok_bind]
    cases bound : (op.args.zip args).mapM fun (param, arg) => argFor ev.program name param arg with
    | error reason =>
      refine .inl ⟨reason, rfl, ?_⟩
      simp only [Bind.bind, EStateM.bind, ofExcept, bound]
    | ok values =>
      have count : values.length = args.length := by
        rw [length_of_mapM bound, List.length_zip, arity_of_functionOf found, Nat.min_self]
      refine .inr ⟨values, ?_, ?_⟩
      · rw [enter, count, found, ok_bind, ok_bind, count]
      · simp only [Bind.bind, EStateM.bind, ofExcept, bound]

end

end Evaluator

end RngLowering
