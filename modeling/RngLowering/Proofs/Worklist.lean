import Mathlib.Data.Prod.Basic
import Mathlib.Logic.Relation
import RngLowering.Conversion.Run
import RngLowering.Proofs.RuleEffects

/-!
Conversions with any rules. As long as a rule gives no operation but its root another kind, whatever has
to be converted is waiting, in the queue or among what was put off. So a run that succeeds leaves nothing
to convert, and one that gets stuck names all that is left.
-/

set_option autoImplicit false

namespace RngLowering

namespace Program

variable {p : Program} {mark id : Nat}

theorem mem_createdSince : id ∈ p.createdSince mark ↔ mark ≤ id ∧ p.isLive id = true := by
  rw [createdSince, List.mem_filter, List.mem_range'_1]
  constructor
  · rintro ⟨⟨above, -⟩, live⟩
    exact ⟨above, live⟩
  · rintro ⟨above, live⟩
    obtain ⟨op, found⟩ := isLive_iff.mp live
    have below : id < p.ops.size := op?_lt found
    exact ⟨⟨above, by omega⟩, live⟩

theorem nodup_createdSince (p : Program) (mark : Nat) : (p.createdSince mark).Nodup := by
  have nodup : (List.range' mark (p.ops.size - mark)).Nodup := List.nodup_range'
  exact nodup.filter _

end Program

theorem RuleSet.find?_eq_some {rules : RuleSet} {p : Program} {id : OpId} {name : String} {rule : Rule}
    (found : rules.find? p id name = some rule) :
    rule ∈ rules ∧ rule.root = name ∧ rule.applies p id = true := by
  have applies : rule.applies p id = true := by
    have test := List.find?_some (p := fun rule : Rule => rule.applies p id) found
    exact test
  have mem := List.mem_filter.mp (List.mem_of_find?_eq_some found)
  exact ⟨mem.1, by simpa using mem.2, applies⟩

namespace Conversion.Plan

variable {plan : Plan} {s next : State} {id : OpId}

theorem needs_iff {p : Program} : plan.needs p id = true ↔
    ∃ op, p.op? id = some op ∧ plan.mode.converts (plan.target.legality op.name) = true := by
  unfold needs
  cases p.op? id with
  | none => simp
  | some op => simp

/-- What a step comes to. -/
inductive Stepped (plan : Plan) (s : State) : Next → Prop
  /-- The operation was erased while it was waiting. -/
  | gone {id : OpId} {rest : List OpId} (queue : s.queue = id :: rest)
      (dead : s.program.op? id = none) : Stepped plan s (.inl { s with queue := rest })
  | putOff {id : OpId} {rest : List OpId} {op : Op} {events : Array Event}
      (queue : s.queue = id :: rest) (found : s.program.op? id = some op)
      (unruled : plan.rules.find? s.program id op.name = none) :
      Stepped plan s (.inl { s with queue := rest, pending := s.pending ++ [id], events })
  | failed {id : OpId} {rest : List OpId} {op : Op} {rule : Rule} {reason : ConvertError}
      {q : Program} {final : State} (queue : s.queue = id :: rest)
      (found : s.program.op? id = some op)
      (first : plan.rules.find? s.program id op.name = some rule)
      (fails : rule.apply id s.program = .error reason q) (left : final.program = q) :
      Stepped plan s (.inr (.failed reason, final))
  | rewritten {id : OpId} {rest : List OpId} {op : Op} {rule : Rule} {news log : List Event}
      {events : Array Event} {q : Program} (queue : s.queue = id :: rest)
      (found : s.program.op? id = some op)
      (first : plan.rules.find? s.program id op.name = some rule)
      (succeeds : rule.apply id s.program = .ok news q) :
      Stepped plan s (.inl (plan.account { s with queue := rest, events } id q log))
  | done {final : State} (queue : s.queue = [])
      (converted : s.pending.filter (plan.needs s.program) = [])
      (left : final.program = s.program) : Stepped plan s (.inr (.done s.report, final))
  | stuck {final : State} (queue : s.queue = []) (idle : s.progress = false)
      (left : final.program = s.program) :
      Stepped plan s (.inr (.failed (.stuck
        (illegalOps s.program (s.pending.filter (plan.needs s.program))) s.report.applied), final))
  | again (queue : s.queue = []) (progress : s.progress = true) :
      Stepped plan s (.inl { s with
        queue := s.pending.filter (plan.needs s.program), pending := [], progress := false
        report := { s.report with rounds := s.report.rounds + 1 } })

theorem stepped (plan : Plan) (s : State) : plan.Stepped s (plan.step s) := by
  unfold step
  split
  · rename_i queue
    unfold endRound
    dsimp only
    split
    · rename_i converted
      exact .done queue (List.isEmpty_iff.mp converted) rfl
    · split
      · rename_i idle
        exact .stuck queue (by simpa using idle) rfl
      · rename_i going
        exact .again queue (by simpa using going)
  · rename_i id rest queue
    unfold visit
    split
    · rename_i dead
      exact .gone queue dead
    · rename_i op found
      dsimp only
      split
      · rename_i unruled
        exact .putOff queue found unruled
      · rename_i rule first
        split
        · rename_i fails
          exact .failed queue found first fails rfl
        · rename_i succeeds
          exact .rewritten queue found first succeeds

/-- Whatever has to be converted is waiting, and nothing waits twice. As long as a round has changed
nothing, no rule applies to what was put off in it. -/
structure Tracks (plan : Plan) (s : State) : Prop where
  waiting : ∀ id, plan.needs s.program id = true → id ∈ s.queue ++ s.pending
  nodup : (s.queue ++ s.pending).Nodup
  placed : ∀ id ∈ s.queue ++ s.pending, id < s.program.ops.size
  hopeless : s.progress = false → ∀ id ∈ s.pending, ∀ op, s.program.op? id = some op →
    plan.rules.find? s.program id op.name = none

theorem tracks_start (plan : Plan) {p : Program} (wf : p.WellFormed) : plan.Tracks (plan.start p) := by
  constructor
  · intro id needed
    obtain ⟨op, found, -⟩ := needs_iff.mp needed
    apply List.mem_append_left
    apply List.mem_filter.mpr
    exact ⟨wf.mem_walk_of_op? found, needed⟩
  · show (p.walk.filter (plan.needs p) ++ []).Nodup
    rw [List.append_nil]
    exact wf.nodup_walk.filter _
  · intro id mem
    have inWalk : id ∈ p.walk.filter (plan.needs p) := by simpa [start] using mem
    obtain ⟨op, found⟩ :=
      Program.isLive_iff.mp (wf.mem_walk_iff.mp (List.mem_of_mem_filter inWalk))
    exact Program.op?_lt found
  · intro _ id mem
    cases mem

theorem mem_created {p q : Program} : id ∈ (q.createdSince p.ops.size).filter (plan.needs q) ↔
    p.ops.size ≤ id ∧ plan.needs q id = true := by
  rw [List.mem_filter, Program.mem_createdSince]
  constructor
  · rintro ⟨⟨above, -⟩, needed⟩
    exact ⟨above, needed⟩
  · rintro ⟨above, needed⟩
    obtain ⟨op, found, -⟩ := needs_iff.mp needed
    exact ⟨⟨above, Program.isLive_iff.mpr ⟨op, found⟩⟩, needed⟩

/-- After a rewrite there wait its root if it stayed, what waited before, and what is new. -/
theorem waiting_account (plan : Plan) (s : State) (id : OpId) (q : Program) (log : List Event) :
    ((plan.account s id q log).queue ++ (plan.account s id q log).pending).Perm
      ((if q.isLive id = true then [id] else []) ++ (s.queue ++ s.pending) ++
        (q.createdSince s.program.ops.size).filter (plan.needs q)) := by
  simp only [account]
  rw [List.perm_iff_count]
  intro other
  split
  · simp only [List.count_append]
    omega
  · simp only [List.count_append, List.count_nil]
    omega

/-- What a rule left alone waits as before, so that no operation that has to be converted is lost. -/
theorem Tracks.account {rest : List OpId} (tracks : plan.Tracks s) (queue : s.queue = id :: rest)
    {q : Program} (converts : s.program.ConvertsOnly id q) (events : Array Event) (log : List Event) :
    plan.Tracks (plan.account { s with queue := rest, events } id q log) := by
  have waiting := waiting_account plan { s with queue := rest, events } id q log
  have nodup := tracks.nodup
  have placed := tracks.placed
  rw [queue, List.cons_append] at nodup placed
  have old : ∀ other ∈ (if q.isLive id = true then [id] else []) ++ (rest ++ s.pending),
      other < s.program.ops.size := by
    intro other mem
    apply placed other
    split at mem
    · exact mem
    · exact List.mem_cons_of_mem id mem
  constructor
  · intro other needed
    rw [waiting.mem_iff, List.mem_append, List.mem_append, mem_created]
    obtain ⟨op, found, converted⟩ := needs_iff.mp needed
    by_cases root : other = id
    · have live : q.isLive id = true := root ▸ Program.isLive_iff.mpr ⟨op, found⟩
      rw [if_pos live, root]
      exact .inl (.inl (List.mem_singleton_self id))
    · by_cases new : s.program.ops.size ≤ other
      · exact .inr ⟨new, needed⟩
      · obtain ⟨before, foundBefore, same⟩ :=
          converts.kinds other op (Nat.lt_of_not_le new) root found
        have neededBefore : plan.needs s.program other = true := by
          apply needs_iff.mpr
          refine ⟨before, foundBefore, ?_⟩
          rwa [Op.name, same]
        have waited := tracks.waiting other neededBefore
        rw [queue, List.cons_append, List.mem_cons] at waited
        exact .inl (.inr (waited.resolve_left root))
  · rw [waiting.nodup_iff, List.nodup_append]
    refine ⟨?_, (Program.nodup_createdSince q s.program.ops.size).filter _, ?_⟩
    · split
      · exact nodup
      · exact (List.nodup_cons.mp nodup).2
    · intro other before another new same
      have low := old other before
      have high := (mem_created.mp new).1
      exact Nat.not_lt_of_le high (same ▸ low)
  · intro other mem
    rw [waiting.mem_iff, List.mem_append, mem_created] at mem
    rcases mem with before | ⟨-, needed⟩
    · exact Nat.lt_of_lt_of_le (old other before) converts.grows
    · obtain ⟨op, found, -⟩ := needs_iff.mp needed
      exact Program.op?_lt found
  · intro idle
    cases idle

theorem Tracks.step (tracks : plan.Tracks s) (rules : ∀ rule ∈ plan.rules, rule.ConvertsRoot)
    (taken : plan.Stepped s (.inl next)) : plan.Tracks next := by
  have waiting := tracks.waiting
  have nodup := tracks.nodup
  have placed := tracks.placed
  cases taken with
  | gone queue dead =>
    rw [queue, List.cons_append] at nodup placed
    refine ⟨?_, (List.nodup_cons.mp nodup).2, ?_, tracks.hopeless⟩
    · intro other needed
      have waited := waiting other needed
      rw [queue, List.cons_append, List.mem_cons] at waited
      apply waited.resolve_left
      rintro rfl
      obtain ⟨op, found, -⟩ := needs_iff.mp needed
      rw [dead] at found
      cases found
    · intro other mem
      exact placed other (List.mem_cons_of_mem _ mem)
  | @putOff id rest op events queue found unruled =>
    have same : (rest ++ (s.pending ++ [id])).Perm (s.queue ++ s.pending) := by
      rw [queue, ← List.append_assoc]
      exact List.perm_append_singleton id _
    refine ⟨?_, same.nodup_iff.mpr nodup, ?_, ?_⟩
    · intro other needed
      exact same.mem_iff.mpr (waiting other needed)
    · intro other mem
      exact placed other (same.mem_iff.mp mem)
    · intro idle other mem kept here
      rcases List.mem_append.mp mem with before | last
      · exact tracks.hopeless idle other before kept here
      · cases List.mem_singleton.mp last
        rw [found] at here
        cases here
        exact unruled
  | rewritten queue found first succeeds =>
    obtain ⟨inRules, named, applies⟩ := RuleSet.find?_eq_some first
    exact tracks.account queue
      (rules _ inRules _ _ _ found named.symm applies _ _ succeeds) _ _
  | again queue _ =>
    rw [queue, List.nil_append] at nodup placed
    refine ⟨?_, ?_, ?_, ?_⟩
    · intro other needed
      have waited := waiting other needed
      rw [queue, List.nil_append] at waited
      rw [List.append_nil]
      exact List.mem_filter.mpr ⟨waited, needed⟩
    · rw [List.append_nil]
      exact nodup.filter _
    · intro other mem
      rw [List.append_nil] at mem
      exact placed other (List.mem_of_mem_filter mem)
    · intro _ other mem
      cases mem

/-- The operation that a rule rewrites in the next step, if one does. -/
def rewritten? (plan : Plan) (s : State) : Option OpId := do
  let id ← s.queue.head?
  let op ← s.program.op? id
  let rule ← plan.rules.find? s.program id op.name
  match rule.apply id s.program with
  | .ok _ _ => some id
  | .error _ _ => none

def rewrites (plan : Plan) : Nat → State → List OpId
  | 0, _ => []
  | fuel + 1, s =>
    match plan.step s with
    | .inl next => (plan.rewritten? s).toList ++ plan.rewrites fuel next
    | .inr _ => []

/-- A step counts the rewrite that it makes. -/
theorem applied_of_stepped (taken : plan.Stepped s (.inl next)) :
    next.report.applied = s.report.applied + (plan.rewritten? s).toList.length := by
  cases taken with
  | gone queue dead => simp [rewritten?, queue, dead]
  | putOff queue found unruled => simp [rewritten?, queue, found, unruled]
  | rewritten queue found first succeeds =>
    simp [rewritten?, queue, found, first, succeeds, account]
  | again queue _ => simp [rewritten?, queue]

def Reaches (plan : Plan) : State → State → Prop :=
  Relation.ReflTransGen fun s next => plan.step s = .inl next

/-- A run that ends does so in a step from a state that it comes to, in which what every step keeps still
holds and all rewrites are counted. -/
theorem exists_last {holds : State → Prop}
    (kept : ∀ s next, holds s → plan.Stepped s (.inl next) → holds next) {fuel : Nat}
    {verdict : Verdict Report} {final : State} (initial : holds s) (ended : verdict ≠ .exhausted)
    (ran : plan.run fuel s = (verdict, final)) :
    ∃ last, plan.Reaches s last ∧ holds last ∧ plan.Stepped last (.inr (verdict, final)) ∧
      last.report.applied = s.report.applied + (plan.rewrites fuel s).length := by
  induction fuel generalizing s with
  | zero =>
    cases ran
    exact absurd rfl ended
  | succ fuel ih =>
    have taken := plan.stepped s
    unfold Plan.run at ran
    unfold rewrites
    cases next : plan.step s with
    | inl next' =>
      rw [next] at ran taken
      obtain ⟨last, reaches, holdsLast, takenLast, applied⟩ := ih (kept s next' initial taken) ran
      refine ⟨last, reaches.head next, holdsLast, takenLast, ?_⟩
      rw [applied, applied_of_stepped taken, List.length_append]
      omega
    | inr result =>
      rw [next] at ran taken
      cases ran
      exact ⟨s, .refl, initial, taken, rfl⟩

theorem Tracks.run {fuel : Nat} {verdict : Verdict Report} {final : State} (tracks : plan.Tracks s)
    (rules : ∀ rule ∈ plan.rules, rule.ConvertsRoot) (ended : verdict ≠ .exhausted)
    (ran : plan.run fuel s = (verdict, final)) :
    ∃ last, plan.Reaches s last ∧ plan.Tracks last ∧ plan.Stepped last (.inr (verdict, final)) ∧
      last.report.applied = s.report.applied + (plan.rewrites fuel s).length :=
  exists_last (fun _ _ tracks => tracks.step rules) tracks ended ran

/-- At the end of a round, what was put off and has to be converted is all that has to be. -/
theorem Tracks.mem_pending (tracks : plan.Tracks s) (queue : s.queue = []) :
    id ∈ s.pending.filter (plan.needs s.program) ↔ plan.needs s.program id = true := by
  rw [List.mem_filter]
  constructor
  · exact And.right
  · intro needed
    have waiting := tracks.waiting id needed
    rw [queue, List.nil_append] at waiting
    exact ⟨waiting, needed⟩

theorem mem_illegalOps {p : Program} {ids : List OpId} {left : IllegalOp}
    (mem : left ∈ illegalOps p ids) :
    left.id ∈ ids ∧ ∃ op, p.op? left.id = some op ∧ left.name = op.name ∧ left.loc = op.loc := by
  obtain ⟨id, inIds, made⟩ := List.mem_filterMap.mp mem
  obtain ⟨op, found, rfl⟩ := Option.map_eq_some_iff.mp made
  exact ⟨inIds, op, found, rfl, rfl⟩

/-- A report of live operations lists them in order. -/
theorem map_id_illegalOps {p : Program} {ids : List OpId}
    (live : ∀ id ∈ ids, ∃ op, p.op? id = some op) : (illegalOps p ids).map (·.id) = ids := by
  induction ids with
  | nil => rfl
  | cons id rest ih =>
    rw [List.forall_mem_cons] at live
    obtain ⟨⟨op, found⟩, liveRest⟩ := live
    have same := ih liveRest
    unfold illegalOps at same ⊢
    simp [found, same]

/-- No rule for an operation that was put off applies at the end of a round without progress. -/
theorem Tracks.applies_eq_false (tracks : plan.Tracks s) (idle : s.progress = false)
    (pending : id ∈ s.pending) {op : Op} (found : s.program.op? id = some op) :
    ∀ rule ∈ plan.rules.rulesFor op.name, rule.applies s.program id = false := by
  intro rule mem
  have none := tracks.hopeless idle id pending op found
  rw [RuleSet.find?, List.find?_eq_none] at none
  simpa using none rule mem

/-- A report of what is left to convert in a program after some rewrites: it lists each operation once,
with its name and location, and no rule for it applies. -/
structure FullReport (plan : Plan) (p : Program) (rewrites : List OpId) (remaining : List IllegalOp)
    (applied : Nat) : Prop where
  nodup : (remaining.map (·.id)).Nodup
  listed : ∀ id, id ∈ remaining.map (·.id) ↔ plan.needs p id = true
  hopeless : ∀ left ∈ remaining, ∃ op, p.op? left.id = some op ∧ left.name = op.name ∧
    left.loc = op.loc ∧ ∀ rule ∈ plan.rules.rulesFor op.name, rule.applies p left.id = false
  applied : applied = rewrites.length

theorem Tracks.fullReport (tracks : plan.Tracks s) (queue : s.queue = []) (idle : s.progress = false)
    {rewrites : List OpId} (counted : s.report.applied = rewrites.length) :
    plan.FullReport s.program rewrites
      (illegalOps s.program (s.pending.filter (plan.needs s.program))) s.report.applied := by
  have live : ∀ id ∈ s.pending.filter (plan.needs s.program), ∃ op, s.program.op? id = some op := by
    intro id mem
    obtain ⟨op, found, -⟩ := needs_iff.mp ((tracks.mem_pending queue).mp mem)
    exact ⟨op, found⟩
  refine ⟨?_, ?_, ?_, counted⟩
  · rw [map_id_illegalOps live]
    have nodup := tracks.nodup
    rw [queue, List.nil_append] at nodup
    exact nodup.filter _
  · intro id
    rw [map_id_illegalOps live]
    exact tracks.mem_pending queue
  · intro item mem
    obtain ⟨pending, op, found, named, located⟩ := mem_illegalOps mem
    exact ⟨op, found, named, located,
      tracks.applies_eq_false idle (List.mem_of_mem_filter pending) found⟩

/-- The run comes to a state in which the rule that is found for the next operation fails. -/
inductive RuleFails (plan : Plan) (s : State) (reason : ConvertError) (q : Program) : Prop
  | intro {last : State} {id : OpId} {rest : List OpId} {op : Op} {rule : Rule}
      (reaches : plan.Reaches s last) (queue : last.queue = id :: rest)
      (found : last.program.op? id = some op)
      (first : plan.rules.find? last.program id op.name = some rule)
      (fails : rule.apply id last.program = .error reason q)

theorem RuleFails.exists_rule {reason : ConvertError} {q : Program}
    (fails : plan.RuleFails s reason q) :
    ∃ rule ∈ plan.rules, ∃ id before, rule.apply id before = .error reason q := by
  obtain ⟨-, -, -, first, fails⟩ := fails
  obtain ⟨mem, -, -⟩ := RuleSet.find?_eq_some first
  exact ⟨_, mem, _, _, fails⟩

/-- A conversion that succeeds leaves nothing to convert. One that gets stuck gives a full report of what
is left, unless a rule that it has come to fails with a report of its own, which is passed on at once as
any failure of a rule is. If no rule does so, then the report is full. -/
theorem run_start_verdict (plan : Plan) {p : Program} (wf : p.WellFormed)
    (rules : ∀ rule ∈ plan.rules, rule.ConvertsRoot) (fuel : Nat) :
    (∀ report final, plan.run fuel (plan.start p) = (.done report, final) →
      (∀ id, plan.needs final.program id = false) ∧
        report.applied = (plan.rewrites fuel (plan.start p)).length) ∧
    ∀ remaining applied final,
      plan.run fuel (plan.start p) = (.failed (.stuck remaining applied), final) →
      (plan.RuleFails (plan.start p) (.stuck remaining applied) final.program ∨
        plan.FullReport final.program (plan.rewrites fuel (plan.start p)) remaining applied) ∧
      ((∀ rule ∈ plan.rules, rule.NeverStuck) →
        plan.FullReport final.program (plan.rewrites fuel (plan.start p)) remaining applied) := by
  have tracks := plan.tracks_start wf
  have counted : ∀ {last : State},
      last.report.applied = (plan.start p).report.applied +
        (plan.rewrites fuel (plan.start p)).length →
      last.report.applied = (plan.rewrites fuel (plan.start p)).length := by
    intro last applied
    rwa [show (plan.start p).report.applied = 0 from rfl, Nat.zero_add] at applied
  constructor
  · intro report final ran
    obtain ⟨last, -, tracksLast, taken, applied⟩ := tracks.run rules (by simp) ran
    cases taken with
    | done queue converted left =>
      refine ⟨?_, counted applied⟩
      intro id
      apply Bool.eq_false_iff.mpr
      intro needed
      rw [left, ← tracksLast.mem_pending queue, converted] at needed
      cases needed
  · intro remaining applied final ran
    obtain ⟨last, reaches, tracksLast, taken, count⟩ := tracks.run rules (by simp) ran
    cases taken with
    | failed queue found first fails left =>
      have failed : plan.RuleFails (plan.start p) (.stuck remaining applied) final.program :=
        ⟨reaches, queue, found, first, left ▸ fails⟩
      refine ⟨.inl failed, fun never => ?_⟩
      obtain ⟨rule, mem, id, before, stuck⟩ := failed.exists_rule
      exact absurd stuck (never rule mem id before _ _ _)
    | stuck queue idle left =>
      have full := tracksLast.fullReport queue idle (counted count)
      rw [left]
      exact ⟨.inr full, fun _ => full⟩

/-- An operation that expands into two, each of which expands into a sum, and one that is erased; then
an operation that waits for another one to be renamed, after which no rule is left for that one. -/
theorem run_start_verdict_chain :
    let i64 : Ty := .int ⟨64, .signless⟩
    let test (name : String) (operands : List ValueId) : Request :=
      .push (some 0) { kind := .bare name, operands } rfl [i64]
    let p := Request.reach "in"
      [.addFunction "main" [i64] none, test "test.quad" [0], test "test.drop" [1]]
    let q := Request.reach "in" [.addFunction "main" [i64] none, test "test.late" [0], test "test.old" [1]]
    let target := (({} : Target).markDialect "arith" .legal).markDialect "func" .legal
    let chain : Plan := ⟨target, [Rule.expand "quad" "test.quad" ["test.double", "test.double"],
      Rule.double "double" "test.double", Rule.erase "drop" "test.drop"], .full⟩
    let wait : Plan := ⟨target, [(Rule.rename "late" "test.late" "arith.done").whileAbsent "test.old",
      Rule.rename "old" "test.old" "test.new", Rule.never "new" "test.new"], .full⟩
    (p.WellFormed ∧ (∀ rule ∈ chain.rules, rule.ConvertsRoot) ∧ ∃ report final,
      chain.run 8 (chain.start p) = (.done report, final) ∧ report.applied = 4 ∧
        ∀ id, chain.needs final.program id = false) ∧
    (q.WellFormed ∧ (∀ rule ∈ wait.rules, rule.ConvertsRoot) ∧ ∃ remaining final,
      wait.run 16 (wait.start q) = (.failed (.stuck remaining 2), final) ∧
        remaining.map (·.name) = ["test.new"] ∧
        ∀ id, id ∈ remaining.map (·.id) ↔ wait.needs final.program id = true) := by
  intro i64 test p q target chain wait
  have chainRules : ∀ rule ∈ chain.rules, rule.ConvertsRoot := by
    simp only [chain, List.forall_mem_cons]
    exact ⟨Rule.convertsRoot_expand _ _ _, Rule.convertsRoot_double _ _, Rule.convertsRoot_erase _ _,
      List.forall_mem_nil _⟩
  have waitRules : ∀ rule ∈ wait.rules, rule.ConvertsRoot := by
    simp only [wait, List.forall_mem_cons]
    exact ⟨(Rule.convertsRoot_rename _ _ _).whileAbsent _, Rule.convertsRoot_rename _ _ _,
      Rule.convertsRoot_never _ _, List.forall_mem_nil _⟩
  have neverStuck : ∀ rule ∈ wait.rules, rule.NeverStuck := by
    simp only [wait, List.forall_mem_cons]
    refine ⟨?_, ?_, ?_, List.forall_mem_nil _⟩ <;>
      · intro id before remaining applied left stuck
        cases stuck
  refine ⟨⟨Program.wellFormed_reach _ _ rfl, chainRules, ?_⟩, Program.wellFormed_reach _ _ rfl,
    waitRules, ?_⟩
  · have ran : (chain.run 8 (chain.start p)).1 = .done ⟨4, 4, 4, 1⟩ := by decide +kernel
    have same := Prod.fst_eq_iff.mp ran
    have verdict :=
      (run_start_verdict chain (Program.wellFormed_reach _ _ rfl) chainRules 8).1 _ _ same
    exact ⟨_, _, same, rfl, verdict.1⟩
  · have ran : (wait.run 16 (wait.start q)).1 = .failed (.stuck [⟨2, "test.new", none⟩] 2) := by
      decide +kernel
    have same := Prod.fst_eq_iff.mp ran
    have verdict :=
      (run_start_verdict wait (Program.wellFormed_reach _ _ rfl) waitRules 16).2 _ _ _ same
    exact ⟨_, _, same, rfl, (verdict.2 neverStuck).listed⟩

/-- A rule that claims to be stuck, with nothing left and after seven rewrites. The conversion reports
so, although nothing was rewritten and the operation is there and has to be converted. -/
theorem run_start_stuck_by_rule :
    let rule : Rule :=
      { name := "stuck", root := "test.x", applies := fun _ _ => true,
        apply := fun _ => throw (.stuck [] 7) }
    let plan : Plan := ⟨{}, [rule], .full⟩
    let p := Request.reach "in" [.push none { kind := .bare "test.x" } rfl []]
    p.WellFormed ∧ rule.ConvertsRoot ∧ ∃ final,
      plan.run 1 (plan.start p) = (.failed (.stuck [] 7), final) ∧
        plan.needs final.program 0 = true ∧ plan.rewrites 1 (plan.start p) = [] ∧
        ¬ plan.FullReport final.program (plan.rewrites 1 (plan.start p)) [] 7 := by
  intro rule plan p
  have converts : rule.ConvertsRoot := .of_apply fun _ => Edit.convertsOnly_throw _
  have needed : plan.needs p 0 = true := by decide +kernel
  refine ⟨Program.wellFormed_reach _ _ rfl, converts, _, rfl, needed, rfl, ?_⟩
  intro full
  have listed := (full.listed 0).mpr needed
  cases listed

end Conversion.Plan

end RngLowering
