import RngLowering.Conversion.Rule

/-!
Converting a program with a set of rules.

The operations to convert wait in a queue. One that no rule applies to, or that a rule leaves in
place, is put off to the next round; operations that a rule creates join the end of the queue if
they have to be converted too. There is a next round as long as the last one changed something.

Rules may feed each other for ever, so that a run is given a number of steps.
-/

set_option autoImplicit false

namespace RngLowering

/-- How a conversion ended. -/
inductive Verdict (α : Type) where
  | done (result : α)
  | failed (reason : ConvertError)
  /-- The steps given to it did not suffice. -/
  | exhausted
  deriving DecidableEq

/-- What a conversion did. -/
structure Report where
  applied : Nat := 0
  opsCreated : Nat := 0
  opsErased : Nat := 0
  rounds : Nat := 0
  deriving DecidableEq

namespace Conversion

/-- What is to be converted, and how. -/
structure Plan where
  target : Target
  rules : RuleSet
  mode : Mode

structure State where
  program : Program
  /-- Operations to visit in this round. -/
  queue : List OpId
  /-- Operations put off to the next round. -/
  pending : List OpId := []
  /-- Was a rule applied in this round? -/
  progress : Bool := false
  report : Report := {}
  events : Array Event := #[]

namespace Plan

/-- Is there an operation at this place that has to be converted? -/
def needs (plan : Plan) (p : Program) (id : OpId) : Bool :=
  (p.op? id).any fun op => plan.mode.converts (plan.target.legality op.name)

/-- The state before the first round. -/
def start (plan : Plan) (p : Program) : State :=
  let queue := p.walk.filter (plan.needs p)
  { program := p
    queue
    report := { rounds := 1 }
    events := #[.converting p.name queue.length plan.mode] }

/-- Account for a rule applied to the operation at `id`, which left the program `after`. -/
def account (plan : Plan) (s : State) (id : OpId) (after : Program) (events : List Event) :
    State :=
  let created := after.createdSince s.program.ops.size
  let live := after.isLive id
  { program := after
    queue := s.queue ++ created.filter (plan.needs after)
    pending := if live then s.pending ++ [id] else s.pending
    progress := true
    report :=
      { s.report with
        applied := s.report.applied + 1
        opsCreated := s.report.opsCreated + created.length
        opsErased := if live then s.report.opsErased else s.report.opsErased + 1 }
    events := s.events ++ events }

/-- The next state, or the end of the run. -/
abbrev Next := State ⊕ Verdict Report × State

/-- Visit an operation that has left the queue. -/
def visit (plan : Plan) (s : State) (id : OpId) : Next :=
  match s.program.op? id with
  | none => .inl s
  | some op =>
    let s := { s with events := s.events.push (.visiting id op.name) }
    match plan.rules.find? s.program id op.name with
    | none => .inl { s with pending := s.pending ++ [id] }
    | some rule =>
      match rule.apply id s.program with
      | .error reason p => .inr (.failed reason, { s with program := p })
      | .ok events p => .inl (plan.account s id p (events ++ [.applied rule.name op.name id]))

/-- Operations that are still to be converted, as a failure shows them. -/
def illegalOps (p : Program) (ids : List OpId) : List IllegalOp :=
  ids.filterMap fun id => (p.op? id).map fun op => ⟨id, op.name, op.loc⟩

/-- End a round: with nothing left to convert the run succeeds, without progress it fails, and else
the operations put off are queued again. -/
def endRound (plan : Plan) (s : State) : Next :=
  let pending := s.pending.filter (plan.needs s.program)
  if pending.isEmpty then
    let event := .converted s.program.name s.report.applied s.report.opsCreated
    .inr (.done s.report, { s with pending, events := s.events.push event })
  else if !s.progress then
    let remaining := illegalOps s.program pending
    let event := .stuck s.program.name remaining.length
    .inr (.failed (.stuck remaining s.report.applied),
      { s with pending, events := s.events.push event })
  else
    .inl
      { s with
        queue := pending
        pending := []
        progress := false
        report := { s.report with rounds := s.report.rounds + 1 } }

def step (plan : Plan) (s : State) : Next :=
  match s.queue with
  | [] => plan.endRound s
  | id :: rest => plan.visit { s with queue := rest } id

/-- Take at most `fuel` steps. -/
def run (plan : Plan) : Nat → State → Verdict Report × State
  | 0, s => (.exhausted, s)
  | fuel + 1, s =>
    match plan.step s with
    | .inl next => plan.run fuel next
    | .inr final => final

end Plan

end Conversion

end RngLowering
