import RngLowering.Conversion.Run
import RngLowering.StateUpdate

set_option autoImplicit false

namespace RngLowering

/-- Figures of a lowering. -/
structure Stats where
  numFunctions : Nat := 0
  opsBefore : Nat := 0
  opsAfter : Nat := 0
  applied : Nat := 0
  opsCreated : Nat := 0
  opsErased : Nat := 0
  globalsCreated : Nat := 0
  /-- Operations left in place that the target does not accept. -/
  remainingIllegal : Nat := 0
  rounds : Nat := 0
  deriving DecidableEq

/-- The figures as lines of text. -/
def Stats.text (stats : Stats) : String :=
  String.join
    ["\n=== Legalization Statistics ===\n",
      s!"Functions:       {stats.numFunctions}\n",
      s!"Operations:      {stats.opsBefore} → {stats.opsAfter}\n",
      s!"Rewrites:        {stats.applied}\n",
      s!"Ops created:     {stats.opsCreated}\n",
      s!"Ops erased:      {stats.opsErased}\n",
      s!"Globals created: {stats.globalsCreated}\n",
      s!"Still illegal:   {stats.remainingIllegal}\n",
      s!"Rounds:          {stats.rounds}\n"]

namespace Lowering

/-- The dialects of lowered programs. -/
def legalDialects : List String := ["arith", "memref", "tensor", "builtin", "func"]

/-- Lowered programs are made of the legal dialects and have no state updates. -/
def target : Target :=
  let dialects : Target :=
    legalDialects.foldl (fun target name => target.markDialect name .legal) {}
  dialects.markOp OpKind.rngUpdate.name .illegal

def plan (config : Config) : Conversion.Plan :=
  { target, rules := [StateUpdate.rule config], mode := config.mode }

/-- Operations of a program that the target does not accept. -/
def illegalCount (p : Program) : Nat :=
  p.walk.countP fun id => (p.op? id).any fun op => target.legality op.name ≠ .legal

/-- The figures of a run that turned `before` into `after`. -/
def stats (config : Config) (before after : Program) (report : Report) : Stats where
  numFunctions := before.functions.length
  opsBefore := before.numOps
  opsAfter := after.numOps
  applied := report.applied
  opsCreated := report.opsCreated
  opsErased := report.opsErased
  globalsCreated :=
    if (before.lookupSymbol? config.stateSymbol).isNone &&
      (after.lookupSymbol? config.stateSymbol).isSome then 1 else 0
  remainingIllegal := illegalCount after
  rounds := report.rounds

/-- How a lowering ended, and the program that it left. -/
structure Result where
  verdict : Verdict Stats
  program : Program
  events : Array Event := #[]

end Lowering

/-- Lower all state updates of a program. Each operation is visited at most once in each of at most
two rounds, which bounds the steps. -/
def lower (config : Config) (p : Program) : Lowering.Result :=
  match config.validate with
  | .error reason => { verdict := .failed (.config reason), program := p }
  | .ok () =>
    let plan := Lowering.plan config
    let start := plan.start p
    let (verdict, final) := plan.run (2 * (start.queue.length + 1)) start
    let verdict :=
      match verdict with
      | .done report => .done (Lowering.stats config p final.program report)
      | .failed reason => .failed reason
      | .exhausted => .exhausted
    { verdict, program := final.program, events := final.events }

end RngLowering
