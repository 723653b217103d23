import RngLowering.Proofs.Emission

set_option autoImplicit false

namespace RngLowering

/-- A reason to refuse one operation, and not the configuration or the program as a whole. -/
def ConvertError.IsRefusal : ConvertError → Prop
  | .config _ | .stuck _ _ => False
  | _ => True

/-- A reason to refuse an operation for what it is. -/
def ConvertError.IsFault : ConvertError → Prop
  | .symbolMismatch _ _ _ _ => False
  | reason => reason.IsRefusal

namespace Lowering

def updates (p : Program) : List OpId := p.walk.filter (StateUpdate.isStateUpdate p)

/-- The other operations that lowered programs may not have, in order. -/
def strangers (p : Program) : List OpId :=
  p.walk.filter fun id => (p.op? id).any fun op =>
    target.legality op.name ≠ .legal && op.kind ≠ .rngUpdate

/-- State updates expanded one after another. -/
inductive Expands (config : Config) (p : Program) : List OpId → Program → Prop
  | nil : Expands config p [] p
  | snoc {q r : Program} {ids : List OpId} {id : OpId} {events : List Event}
      (front : Expands config p ids q) (update : id ∈ updates q)
      (last : StateUpdate.expand config id q = .ok events r) : Expands config p (ids ++ [id]) r

/-- The outline of a program changes in steps as state updates are expanded. -/
theorem Expands.outline {config : Config} {p q : Program} {ids : List OpId}
    (expands : Expands config p ids q) {o : Outline} (rep : p.Represents o) :
    q.name = p.name ∧ ∃ after, q.Represents after ∧
      Relation.ReflTransGen (Outline.Step config) o after := by
  induction expands with
  | nil => exact ⟨rfl, o, rep, .refl⟩
  | @snoc q r ids id events front update last ih =>
    obtain ⟨sameName, middle, repMiddle, steps⟩ := ih
    obtain ⟨mem, isUpdate⟩ := List.mem_filter.mp update
    obtain ⟨_, r, after, expanded, represents, more, keeps⟩ :=
      StateUpdate.expand_eq repMiddle mem isUpdate (StateUpdate.refusal?_of_expand last)
    rw [last] at expanded
    cases expanded
    exact ⟨keeps.name.trans sameName, after, represents, steps.trans more⟩

/-- All but what was expanded is kept. -/
theorem Expands.keeps {config : Config} {p q : Program} {ids : List OpId}
    (expands : Expands config p ids q) {o : Outline} (rep : p.Represents o) :
    p.Keeps config q ids := by
  induction expands with
  | nil => exact .refl config p
  | @snoc q r ids id events front update last ih =>
    obtain ⟨-, middle, repMiddle, -⟩ := front.outline rep
    obtain ⟨mem, isUpdate⟩ := List.mem_filter.mp update
    obtain ⟨_, r, after, expanded, -, -, keeps⟩ :=
      StateUpdate.expand_eq repMiddle mem isUpdate (StateUpdate.refusal?_of_expand last)
    rw [last] at expanded
    cases expanded
    exact ih.trans keeps

theorem target_ops : target.ops = [(OpKind.rngUpdate.name, .illegal)] := by decide

theorem target_dialects : target.dialects = legalDialects.map fun name => (name, .legal) := by decide

/-- Only state updates are illegal. -/
theorem legality_eq_illegal {name : String} :
    target.legality name = .illegal ↔ name = OpKind.rngUpdate.name := by
  have dialect : ∀ name, (target.dialects.lookup name).getD .unknown ≠ .illegal := by
    intro name
    rw [target_dialects]
    induction legalDialects with
    | nil => simp
    | cons head rest ih =>
      rw [List.map_cons, List.lookup_cons]
      split
      · simp
      · exact ih
  unfold Target.legality
  rw [target_ops, List.lookup_cons]
  by_cases same : name = OpKind.rngUpdate.name
  · simp [same]
  · rw [beq_false_of_ne same]
    simpa [same] using dialect (dialectOf name)

/-- What a lowering relies on: operations are where the program says, what they use has a type, and
the name of a state update is that of no other operation. -/
structure Ready (p : Program) : Prop where
  represents : ∃ o, p.Represents o
  typed : ∀ id ∈ p.walk, ∀ op, p.op? id = some op →
    ∀ v ∈ op.operands ++ op.results, ∃ ty, p.typeOf v = .ok ty
  named : ∀ id ∈ p.walk, ∀ op, p.op? id = some op → op.name = OpKind.rngUpdate.name →
    op.kind = .rngUpdate

theorem kind_of_rngUpdate_name {s : Stmt} (legible : s.Legible)
    (name : s.kind.name = OpKind.rngUpdate.name) : s.kind = .rngUpdate := by
  have read := legible.kind
  have plain : OpKind.plain? OpKind.rngUpdate.name = some .rngUpdate := by decide
  rw [name] at read
  unfold OpForm.kindOf at read
  rw [if_neg (by decide), if_neg (by decide), if_neg (by decide), plain] at read
  dsimp only at read
  split at read
  · exact (Except.ok.inj read).symm
  · cases read

/-- A program that was read can be lowered. -/
theorem ready_of_isText {p : Program} {o : Outline} (isText : p.IsText o) : Ready p where
  represents := ⟨o, isText.represents⟩
  typed id mem op found v used := by
    have types := isText.represents.types
    rcases Program.stmt_of_mem_walk isText.represents mem found with ⟨s, inside, parent, holds⟩ |
      ⟨sym, params, region, loc, rfl⟩
    · obtain ⟨loc, here⟩ := holds.op
      rw [here] at found
      cases found
      have defined : v ∈ o.defs := by
        rcases List.mem_append.mp used with operand | result
        · rcases Outline.mem_defs_of_scoped isText.closed inside operand with defined | absurd
          · exact defined
          · cases absurd
        · exact Outline.mem_defs_of_mem_stmts inside result
      rw [← Outline.map_fst_typed] at defined
      obtain ⟨⟨v, ty⟩, declared, rfl⟩ := List.mem_map.mp defined
      exact ⟨ty, types v ty declared⟩
    · cases used
  named id mem op found name := by
    rcases Program.stmt_of_mem_walk isText.represents mem found with ⟨s, inside, parent, holds⟩ |
      ⟨sym, params, region, loc, rfl⟩
    · obtain ⟨loc, here⟩ := holds.op
      rw [here] at found
      cases found
      exact kind_of_rngUpdate_name (Outline.legible_of_mem_stmts isText.legible inside) name
    · have other : OpKind.name (.func sym) ≠ OpKind.rngUpdate.name := by
        simp [OpKind.name]
      exact absurd name other

/-- A run in its first round, with the state updates expanded so far and what was put off. -/
structure Underway (config : Config) (p : Program) (s : Conversion.State) (done putOff : List OpId) :
    Prop where
  expands : Expands config p done s.program
  keeps : p.Keeps config s.program done
  represents : ∃ o, s.program.Represents o
  pending : s.pending = putOff
  progress : s.progress = !done.isEmpty
  applied : s.report.applied = done.length
  rounds : s.report.rounds = 1

section

variable {config : Config} {p : Program} {s : Conversion.State} {done putOff : List OpId} {id : OpId}

theorem find?_of_update {q : Program} {op : Op} (found : q.op? id = some op)
    (kind : op.kind = .rngUpdate) :
    (plan config).rules.find? q id op.name = some (StateUpdate.rule config) := by
  have isUpdate : StateUpdate.isStateUpdate q id = true :=
    StateUpdate.isStateUpdate_iff.mpr ⟨op, found, kind⟩
  simp [plan, RuleSet.find?, RuleSet.rulesFor, StateUpdate.rule, Op.name, kind, isUpdate]

theorem find?_of_other {q : Program} {op : Op} (other : op.name ≠ OpKind.rngUpdate.name) :
    (plan config).rules.find? q id op.name = none := by
  simp [plan, RuleSet.find?, RuleSet.rulesFor, StateUpdate.rule, Ne.symm other]

/-- An operation that no rule is for is put off. -/
theorem visit_of_other (config : Config) {op : Op} (found : s.program.op? id = some op)
    (other : op.name ≠ OpKind.rngUpdate.name) :
    ∃ events, (plan config).visit s id = .inl { s with events, pending := s.pending ++ [id] } := by
  simp only [Conversion.Plan.visit, found, find?_of_other other]
  exact ⟨_, rfl⟩

/-- A state update that is refused ends the run. -/
theorem visit_of_refusal {op : Op} (found : s.program.op? id = some op)
    (kind : op.kind = .rngUpdate) {reason : ConvertError}
    (refused : StateUpdate.refusal? config s.program id = some reason) :
    ∃ events, (plan config).visit s id = .inr (.failed reason, { s with events }) := by
  have applied : (StateUpdate.rule config).apply id s.program = .error reason s.program :=
    StateUpdate.expand_of_refusal refused
  simp only [Conversion.Plan.visit, found, find?_of_update found kind, applied]
  exact ⟨_, rfl⟩

/-- What is created is legal, and does not have to be converted. -/
theorem created_eq_nil {q r : Program} {gone : List OpId} (keeps : q.Keeps config r gone) :
    (r.createdSince q.ops.size).filter ((plan config).needs r) = [] := by
  refine List.filter_eq_nil_iff.mpr fun id mem => ?_
  obtain ⟨inRange, live⟩ := List.mem_filter.mp mem
  obtain ⟨op, found⟩ := Option.isSome_iff_exists.mp live
  rcases keeps.news id op found with before | ⟨-, legal⟩
  · obtain ⟨old, foundOld⟩ := Option.isSome_iff_exists.mp before
    exact absurd (Program.op?_lt foundOld) (Nat.not_lt_of_le (List.mem_range'_1.mp inRange).1)
  · have legality : (plan config).target.legality op.name = .legal := legal
    simp only [Conversion.Plan.needs, found, Option.any_some, legality]
    cases (plan config).mode <;> simp [Mode.converts]

/-- A state update that is not refused is expanded, and nothing joins the queue. -/
theorem visit_of_accepted {o : Outline} (rep : s.program.Represents o) (mem : id ∈ s.program.walk)
    {op : Op} (found : s.program.op? id = some op) (kind : op.kind = .rngUpdate)
    (accepted : StateUpdate.refusal? config s.program id = none) :
    ∃ next events, (plan config).visit s id = .inl next ∧
      StateUpdate.expand config id s.program = .ok events next.program ∧
      s.program.Keeps config next.program [id] ∧ (∃ after, next.program.Represents after) ∧
      next.queue = s.queue ∧ next.pending = s.pending ∧ next.progress = true ∧
      next.report.applied = s.report.applied + 1 ∧ next.report.rounds = s.report.rounds := by
  obtain ⟨events, q, after, expanded, represents, -, keeps⟩ := StateUpdate.expand_eq rep mem
    (StateUpdate.isStateUpdate_iff.mpr ⟨op, found, kind⟩) accepted
  have applied : (StateUpdate.rule config).apply id s.program = .ok events q := expanded
  have dead : q.isLive id = false := by simp [Program.isLive, (keeps.gone id (by simp)).2]
  simp only [Conversion.Plan.visit, found, find?_of_update found kind, applied]
  refine ⟨_, events, rfl, expanded, keeps, ⟨after, represents⟩, ?_, ?_, rfl, rfl, rfl⟩
  · simp [Conversion.Plan.account, created_eq_nil keeps]
  · simp [Conversion.Plan.account, dead]

theorem run_of_inl {next : Conversion.State} (stepped : (plan config).step s = .inl next)
    (fuel : Nat) : (plan config).run (fuel + 1) s = (plan config).run fuel next := by
  simp only [Conversion.Plan.run, stepped]

theorem run_of_inr {final : Verdict Report × Conversion.State}
    (stepped : (plan config).step s = .inr final) (fuel : Nat) :
    (plan config).run (fuel + 1) s = final := by
  simp only [Conversion.Plan.run, stepped]

theorem step_of_cons (config : Config) {rest : List OpId} (queue : s.queue = id :: rest) :
    (plan config).step s = (plan config).visit { s with queue := rest } id := by
  simp only [Conversion.Plan.step, queue]

section

variable {rest : List OpId} (state : Underway config p s done putOff) (ready : Ready p)
  (queue : s.queue = id :: rest) (mem : id ∈ p.walk) (here : id ∉ done)

include state ready queue mem here

/-- A step at an operation that is no state update puts it off. -/
theorem Underway.step_of_other (other : ¬StateUpdate.isStateUpdate p id = true) :
    ∃ next, (plan config).step s = .inl next ∧ next.queue = rest ∧
      Underway config p next done (putOff ++ [id]) := by
  obtain ⟨op, found⟩ := Program.exists_of_mem_walk mem
  obtain ⟨kept, foundKept, keptAs⟩ := state.keeps.ops id op found here
  have otherName : kept.name ≠ OpKind.rngUpdate.name := by
    intro name
    rw [Op.name, keptAs.kind] at name
    exact other (StateUpdate.isStateUpdate_iff.mpr ⟨op, found, ready.named id mem op found name⟩)
  obtain ⟨events, visited⟩ := visit_of_other config (s := { s with queue := rest }) foundKept otherName
  exact ⟨_, (step_of_cons config queue).trans visited, rfl, state.expands, state.keeps,
    state.represents, by rw [state.pending], state.progress, state.applied, state.rounds⟩

omit queue in
/-- A state update that is still there is refused or accepted as at the start. -/
theorem Underway.exists_update (update : StateUpdate.isStateUpdate p id = true) :
    ∃ kept, s.program.op? id = some kept ∧ kept.kind = .rngUpdate ∧
      StateUpdate.refusal? config s.program id = StateUpdate.refusal? config p id := by
  obtain ⟨op, found, kind⟩ := StateUpdate.isStateUpdate_iff.mp update
  obtain ⟨kept, foundKept, keptAs⟩ := state.keeps.ops id op found here
  exact ⟨kept, foundKept, keptAs.kind.trans kind,
    state.keeps.refusal?_eq found here (ready.typed id mem op found)⟩

/-- A step at a state update that is refused ends the run. -/
theorem Underway.step_of_refusal (update : StateUpdate.isStateUpdate p id = true)
    {reason : ConvertError} (refused : StateUpdate.refusal? config p id = some reason) :
    ∃ final, (plan config).step s = .inr (.failed reason, final) ∧ final.program = s.program := by
  obtain ⟨kept, found, kind, same⟩ := state.exists_update ready mem here update
  obtain ⟨events, visited⟩ := visit_of_refusal (s := { s with queue := rest }) found kind
    (same.trans refused)
  exact ⟨_, (step_of_cons config queue).trans visited, rfl⟩

/-- A step at a state update that is not refused expands it. -/
theorem Underway.step_of_accepted (update : StateUpdate.isStateUpdate p id = true)
    (accepted : StateUpdate.refusal? config p id = none) :
    ∃ next, (plan config).step s = .inl next ∧ next.queue = rest ∧
      Underway config p next (done ++ [id]) putOff := by
  obtain ⟨kept, found, kind, same⟩ := state.exists_update ready mem here update
  obtain ⟨o, rep⟩ := state.represents
  have inWalk : id ∈ s.program.walk := state.keeps.walk id mem here
  obtain ⟨next, events, visited, expanded, keeps, represents, sameRest, pending, progress, applied,
    rounds⟩ := visit_of_accepted (s := { s with queue := rest }) rep inWalk found kind
      (same.trans accepted)
  have isUpdate : id ∈ updates s.program :=
    List.mem_filter.mpr ⟨inWalk, StateUpdate.isStateUpdate_iff.mpr ⟨kept, found, kind⟩⟩
  exact ⟨next, (step_of_cons config queue).trans visited, sameRest,
    .snoc state.expands isUpdate expanded, state.keeps.trans keeps, represents,
    pending.trans state.pending, by simp [progress], by simp [applied, state.applied],
    rounds.trans state.rounds⟩

end

/-- The run over a queue: the first state update that is refused ends it, and if there is none, all
state updates are expanded and all other operations put off. -/
theorem run_queue (ready : Ready p) {queue : List OpId} (inWalk : ∀ id ∈ queue, id ∈ p.walk)
    (nodup : queue.Nodup) (apart : ∀ id ∈ queue, id ∉ done)
    (state : Underway config p s done putOff) (sameQueue : s.queue = queue) (fuel : Nat) :
    (∃ front id rest reason final,
      queue.filter (StateUpdate.isStateUpdate p) = front ++ id :: rest ∧
      (∀ other ∈ front, StateUpdate.refusal? config p other = none) ∧
      StateUpdate.refusal? config p id = some reason ∧
      (plan config).run (fuel + queue.length) s = (.failed reason, final) ∧
      Expands config p (done ++ front) final.program ∧
      p.Keeps config final.program (done ++ front)) ∨
    (∀ id ∈ queue.filter (StateUpdate.isStateUpdate p), StateUpdate.refusal? config p id = none) ∧
      ∃ next, (plan config).run (fuel + queue.length) s = (plan config).run fuel next ∧
        next.queue = [] ∧
        Underway config p next (done ++ queue.filter (StateUpdate.isStateUpdate p))
          (putOff ++ queue.filter fun id => !StateUpdate.isStateUpdate p id) := by
  induction queue generalizing s done putOff with
  | nil => exact Or.inr ⟨by simp, s, rfl, sameQueue, by simpa using state⟩
  | cons id rest ih =>
    have mem : id ∈ p.walk := inWalk id (by simp)
    have here : id ∉ done := apart id (by simp)
    obtain ⟨outside, nodup⟩ := List.nodup_cons.mp nodup
    have inRest : ∀ other ∈ rest, other ∈ p.walk := fun other inside => inWalk other (by simp [inside])
    by_cases update : StateUpdate.isStateUpdate p id = true
    · rw [List.filter_cons_of_pos update]
      cases refused : StateUpdate.refusal? config p id with
      | some reason =>
        obtain ⟨final, stepped, unchanged⟩ :=
          state.step_of_refusal ready sameQueue mem here update refused
        refine Or.inl ⟨[], id, _, reason, final, rfl, by simp, refused, run_of_inr stepped _, ?_, ?_⟩
        · simpa [unchanged] using state.expands
        · simpa [unchanged] using state.keeps
      | none =>
        obtain ⟨next, stepped, sameRest, after⟩ :=
          state.step_of_accepted ready sameQueue mem here update refused
        have apartRest : ∀ other ∈ rest, other ∉ done ++ [id] := by
          intro other inside
          rw [List.mem_append, List.mem_singleton, not_or]
          exact ⟨apart other (by simp [inside]), fun same => outside (same ▸ inside)⟩
        rcases ih inRest nodup apartRest after sameRest with
          ⟨front, last, more, reason, final, split, accepted, last', ran, expands, keeps⟩ |
          ⟨accepted, final, ran, empty, underway⟩
        · refine Or.inl ⟨id :: front, last, more, reason, final, by rw [split]; rfl, ?_, last',
            (run_of_inl stepped _).trans ran, ?_, ?_⟩
          · rw [List.forall_mem_cons]
            exact ⟨refused, accepted⟩
          · simpa using expands
          · simpa using keeps
        · refine Or.inr ⟨?_, final, (run_of_inl stepped _).trans ran, empty, ?_⟩
          · rw [List.forall_mem_cons]
            exact ⟨refused, accepted⟩
          · rw [List.filter_cons_of_neg (by simp [update])]
            simpa using underway
    · obtain ⟨next, stepped, sameRest, after⟩ := state.step_of_other ready sameQueue mem here update
      rw [List.filter_cons_of_neg update, List.filter_cons_of_pos (by simp [update])]
      rcases ih inRest nodup (fun other inside => apart other (by simp [inside])) after sameRest with
        ⟨front, last, more, reason, final, split, accepted, last', ran, expands, keeps⟩ |
        ⟨accepted, final, ran, empty, underway⟩
      · exact Or.inl ⟨front, last, more, reason, final, split, accepted, last',
          (run_of_inl stepped _).trans ran, expands, keeps⟩
      · refine Or.inr ⟨accepted, final, (run_of_inl stepped _).trans ran, empty, ?_⟩
        simpa using underway

theorem needs_eq {q : Program} {op : Op} (found : q.op? id = some op) :
    (plan config).needs q id = config.mode.converts (target.legality op.name) := by
  simp only [Conversion.Plan.needs, found, Option.any_some]
  rfl

/-- What was put off is as it was at the start. -/
structure PutOff (config : Config) (p : Program) (done : List OpId) (id : OpId) : Prop where
  mem : id ∈ p.walk
  here : id ∉ done
  other : StateUpdate.isStateUpdate p id = false
  needed : (plan config).needs p id = true

/-- What was put off still has to be converted, and no rule is for it. -/
theorem PutOff.later (off : PutOff config p done id) (ready : Ready p)
    (keeps : p.Keeps config s.program done) :
    (plan config).needs s.program id = true ∧
      ∃ op kept, p.op? id = some op ∧ s.program.op? id = some kept ∧ kept.kind = op.kind ∧
        kept.loc = op.loc ∧ kept.name ≠ OpKind.rngUpdate.name := by
  obtain ⟨op, found⟩ := Program.exists_of_mem_walk off.mem
  obtain ⟨kept, foundKept, keptAs⟩ := keeps.ops id op found off.here
  have needed := off.needed
  rw [needs_eq found, Op.name, ← keptAs.kind] at needed
  refine ⟨(needs_eq foundKept).trans needed, op, kept, found, foundKept, keptAs.kind, keptAs.loc, ?_⟩
  intro name
  rw [Op.name, keptAs.kind] at name
  have update := StateUpdate.isStateUpdate_iff.mpr
    ⟨op, found, ready.named id off.mem op found name⟩
  rw [off.other] at update
  cases update

theorem illegalOps_eq (ready : Ready p) (keeps : p.Keeps config s.program done) {ids : List OpId}
    (off : ∀ id ∈ ids, PutOff config p done id) :
    Conversion.Plan.illegalOps s.program ids = Conversion.Plan.illegalOps p ids := by
  refine List.filterMap_congr fun id mem => ?_
  obtain ⟨-, op, kept, found, foundKept, kind, loc, -⟩ := (off id mem).later ready keeps
  simp [found, foundKept, Op.name, kind, loc]

/-- A round over operations that no rule is for puts them all off again. -/
theorem run_idle (config : Config) {queue : List OpId}
    (others : ∀ id ∈ queue, ∃ op, s.program.op? id = some op ∧ op.name ≠ OpKind.rngUpdate.name)
    (sameQueue : s.queue = queue) (fuel : Nat) :
    ∃ events, (plan config).run (fuel + queue.length) s =
      (plan config).run fuel { s with queue := [], pending := s.pending ++ queue, events } := by
  induction queue generalizing s with
  | nil =>
    cases s
    cases sameQueue
    exact ⟨_, by rw [List.append_nil]; rfl⟩
  | cons id rest ih =>
    obtain ⟨op, found, other⟩ := others id (by simp)
    obtain ⟨events, visited⟩ := visit_of_other config (s := { s with queue := rest })
      found other
    obtain ⟨last, ran⟩ := ih (s := { s with
      queue := rest, events := events, pending := s.pending ++ [id] })
      (fun other mem => others other (by simp [mem])) rfl
    refine ⟨last, ?_⟩
    rw [List.length_cons, ← Nat.add_assoc, run_of_inl ((step_of_cons config sameQueue).trans visited), ran]
    simp

/-- A run without anything to visit or put off succeeds. -/
theorem run_of_nil (config : Config) (queue : s.queue = []) (pending : s.pending = []) (fuel : Nat) :
    ∃ final, (plan config).run (fuel + 1) s = (.done s.report, final) ∧
      final.program = s.program := by
  have stepped : ∃ final, (plan config).step s = .inr (.done s.report, final) ∧
      final.program = s.program := by
    simp only [Conversion.Plan.step, queue, Conversion.Plan.endRound, pending]
    exact ⟨_, rfl, rfl⟩
  obtain ⟨final, stepped, same⟩ := stepped
  exact ⟨final, run_of_inr stepped fuel, same⟩

/-- A round without progress that leaves operations to convert fails for them. -/
theorem run_of_stuck (queue : s.queue = []) (progress : s.progress = false)
    (needed : ∀ id ∈ s.pending, (plan config).needs s.program id = true) (nonempty : s.pending ≠ [])
    (fuel : Nat) :
    ∃ final, (plan config).run (fuel + 1) s =
        (.failed (.stuck (Conversion.Plan.illegalOps s.program s.pending) s.report.applied), final) ∧
      final.program = s.program := by
  have stepped : ∃ final, (plan config).step s =
      .inr (.failed (.stuck (Conversion.Plan.illegalOps s.program s.pending) s.report.applied),
        final) ∧ final.program = s.program := by
    simp only [Conversion.Plan.step, queue, Conversion.Plan.endRound,
      List.filter_eq_self.mpr needed, List.isEmpty_eq_false_iff.mpr nonempty, progress]
    exact ⟨_, rfl, rfl⟩
  obtain ⟨final, stepped, same⟩ := stepped
  exact ⟨final, run_of_inr stepped fuel, same⟩

def nextRound (s : Conversion.State) : Conversion.State :=
  { s with
    queue := s.pending
    pending := []
    progress := false
    report := { s.report with rounds := s.report.rounds + 1 } }

/-- A run that has put operations off fails for them. After a round with progress it visits them once
more. -/
theorem run_of_putOff (ready : Ready p) (state : Underway config p s done putOff)
    (queue : s.queue = []) (off : ∀ id ∈ putOff, PutOff config p done id) (nonempty : putOff ≠ [])
    (fuel : Nat) :
    ∃ final, (plan config).run (fuel + 1 + putOff.length + 1) s =
        (.failed (.stuck (Conversion.Plan.illegalOps p putOff) done.length), final) ∧
      final.program = s.program := by
  have needed : ∀ id ∈ putOff, (plan config).needs s.program id = true :=
    fun id mem => ((off id mem).later ready state.keeps).1
  rw [← illegalOps_eq ready state.keeps off, ← state.applied]
  have pending := state.pending
  subst pending
  cases progress : s.progress with
  | false => exact run_of_stuck queue progress needed nonempty _
  | true =>
    have stepped : (plan config).step s = .inl (nextRound s) := by
      simp only [Conversion.Plan.step, queue, Conversion.Plan.endRound,
        List.filter_eq_self.mpr needed, List.isEmpty_eq_false_iff.mpr nonempty, progress]
      rfl
    have others : ∀ id ∈ s.pending, ∃ op, (nextRound s).program.op? id = some op ∧
        op.name ≠ OpKind.rngUpdate.name := by
      intro id mem
      obtain ⟨-, op, kept, -, found, -, -, other⟩ := (off id mem).later ready state.keeps
      exact ⟨kept, found, other⟩
    obtain ⟨events, ran⟩ := run_idle config others rfl (fuel + 1)
    rw [run_of_inl stepped, ran]
    exact run_of_stuck (s := { nextRound s with queue := [], pending := s.pending, events }) rfl rfl
      needed nonempty fuel

theorem needs_of_update (isUpdate : StateUpdate.isStateUpdate p id = true) :
    (plan config).needs p id = true := by
  obtain ⟨op, found, kind⟩ := StateUpdate.isStateUpdate_iff.mp isUpdate
  have illegal : target.legality op.name = .illegal := by
    rw [Op.name, kind, legality_eq_illegal]
  rw [needs_eq found, illegal]
  cases config.mode <;> rfl

/-- Besides state updates, only a full conversion has to convert anything. -/
theorem needs_of_other (ready : Ready p) (mem : id ∈ p.walk)
    (other : StateUpdate.isStateUpdate p id = false) {op : Op} (found : p.op? id = some op) :
    (plan config).needs p id =
      (decide (config.mode = .full) && decide (target.legality op.name ≠ .legal)) := by
  have notIllegal : target.legality op.name ≠ .illegal := by
    intro illegal
    have kind := ready.named id mem op found (legality_eq_illegal.mp illegal)
    rw [StateUpdate.isStateUpdate_iff.mpr ⟨op, found, kind⟩] at other
    cases other
  rw [needs_eq found]
  cases config.mode with
  | full => rfl
  | lax => simp [Mode.converts, notIllegal]

theorem filter_updates (config : Config) (p : Program) :
    (p.walk.filter ((plan config).needs p)).filter (StateUpdate.isStateUpdate p) = updates p := by
  rw [List.filter_filter, updates]
  refine List.filter_congr fun id _ => ?_
  cases isUpdate : StateUpdate.isStateUpdate p id with
  | false => rfl
  | true => rw [needs_of_update isUpdate]; rfl

theorem filter_others (ready : Ready p) (config : Config) :
    (p.walk.filter ((plan config).needs p)).filter (fun id => !StateUpdate.isStateUpdate p id) =
      if config.mode = .full then strangers p else [] := by
  have each : ∀ id ∈ p.walk,
      (!StateUpdate.isStateUpdate p id && (plan config).needs p id) =
        (decide (config.mode = .full) && (p.op? id).any fun op =>
          target.legality op.name ≠ .legal && op.kind ≠ .rngUpdate) := by
    intro id mem
    obtain ⟨op, found⟩ := Program.exists_of_mem_walk mem
    cases isUpdate : StateUpdate.isStateUpdate p id with
    | true =>
      obtain ⟨same, foundSame, kind⟩ := StateUpdate.isStateUpdate_iff.mp isUpdate
      simp [foundSame, kind]
    | false =>
      have kind : op.kind ≠ .rngUpdate := by
        intro kind
        rw [StateUpdate.isStateUpdate_iff.mpr ⟨op, found, kind⟩] at isUpdate
        cases isUpdate
      rw [needs_of_other ready mem isUpdate found]
      simp [found, kind]
  rw [List.filter_filter, List.filter_congr each]
  split
  · rename_i full
    simp [full, strangers]
  · rename_i other
    simp [other]

/-- Exactly the given state updates of `p` are rewritten in `q`: they were expanded in order and are
gone, all other operations are as they were, and what is new is legal. -/
structure Rewritten (config : Config) (p q : Program) (ids : List OpId) : Prop where
  expands : Expands config p ids q
  gone : ∀ id ∈ ids, q.op? id = none
  kept : ∀ id ∈ p.walk, id ∉ ids → id ∈ q.walk ∧ ∃ op kept, p.op? id = some op ∧
    q.op? id = some kept ∧ kept.kind = op.kind ∧ kept.results = op.results ∧ kept.loc = op.loc
  created : ∀ id ∈ q.walk, id ∉ p.walk → ∃ op, q.op? id = some op ∧ op.kind.Legal

theorem Rewritten.of_keeps {q : Program} {ids : List OpId} (expands : Expands config p ids q)
    (keeps : p.Keeps config q ids) : Rewritten config p q ids where
  expands := expands
  gone id mem := (keeps.gone id mem).2
  kept id mem here := by
    obtain ⟨op, found⟩ := Program.exists_of_mem_walk mem
    obtain ⟨kept, foundKept, keptAs⟩ := keeps.ops id op found here
    exact ⟨keeps.walk id mem here, op, kept, found, foundKept, keptAs.kind, keptAs.results,
      keptAs.loc⟩
  created id mem new := by
    obtain ⟨op, found⟩ := Program.exists_of_mem_walk mem
    rcases keeps.news id op found with before | ⟨-, legal⟩
    · exact absurd (keeps.walkBack id mem before) new
    · exact ⟨op, found, legal⟩

theorem underway_start (ready : Ready p) : Underway config p ((plan config).start p) [] [] :=
  ⟨.nil, .refl config p, ready.represents, rfl, rfl, rfl, rfl⟩

/-- What has to be converted and is no state update is put off once all state updates are expanded. -/
theorem putOff_of_mem (mem : id ∈ (p.walk.filter ((plan config).needs p)).filter
    (fun id => !StateUpdate.isStateUpdate p id)) : PutOff config p (updates p) id := by
  obtain ⟨inQueue, other⟩ := List.mem_filter.mp mem
  obtain ⟨inWalk, needed⟩ := List.mem_filter.mp inQueue
  have notUpdate : StateUpdate.isStateUpdate p id = false := by simpa using other
  refine ⟨inWalk, fun isUpdate => ?_, notUpdate, needed⟩
  rw [(List.mem_filter.mp isUpdate).2] at notUpdate
  cases notUpdate

/-- How the run of a lowering ends. -/
theorem run_start (ready : Ready p) (config : Config) :
    (∃ front id rest reason final, updates p = front ++ id :: rest ∧
      (∀ other ∈ front, StateUpdate.refusal? config p other = none) ∧
      StateUpdate.refusal? config p id = some reason ∧
      (plan config).run (2 * (((plan config).start p).queue.length + 1)) ((plan config).start p) =
        (.failed reason, final) ∧ Rewritten config p final.program front) ∨
    (∀ id ∈ updates p, StateUpdate.refusal? config p id = none) ∧
      ∃ verdict final,
        (plan config).run (2 * (((plan config).start p).queue.length + 1))
          ((plan config).start p) = (verdict, final) ∧
        Rewritten config p final.program (updates p) ∧
        if config.mode = .full ∧ strangers p ≠ [] then
          verdict = .failed (.stuck (Conversion.Plan.illegalOps p (strangers p)) (updates p).length)
        else ∃ report, verdict = .done report ∧ report.rounds = 1 ∧
          report.applied = (updates p).length := by
  have queue : ((plan config).start p).queue = p.walk.filter ((plan config).needs p) := rfl
  have fuel : 2 * (((plan config).start p).queue.length + 1) =
      ((plan config).start p).queue.length + 2 + ((plan config).start p).queue.length := by omega
  obtain ⟨o, rep⟩ := ready.represents
  rcases run_queue ready (fun id mem => (List.mem_filter.mp mem).1)
      ((Program.nodup_walk rep).filter _) (by simp) (underway_start ready) queue
      (((plan config).start p).queue.length + 2) with
    ⟨front, id, rest, reason, final, split, accepted, refused, ran, expands, keeps⟩ |
    ⟨accepted, next, ran, empty, underway⟩
  · rw [filter_updates] at split
    exact Or.inl ⟨front, id, rest, reason, final, split, accepted, refused, fuel ▸ ran,
      .of_keeps expands keeps⟩
  · rw [filter_updates] at accepted
    rw [filter_updates, List.nil_append, List.nil_append] at underway
    have off : ∀ id ∈ (p.walk.filter ((plan config).needs p)).filter
        (fun id => !StateUpdate.isStateUpdate p id), PutOff config p (updates p) id :=
      fun _ mem => putOff_of_mem mem
    have shorter := List.length_filter_le (fun id => !StateUpdate.isStateUpdate p id)
      (p.walk.filter ((plan config).needs p))
    rw [filter_others ready] at underway off shorter
    refine Or.inr ⟨accepted, ?_⟩
    rw [fuel]
    by_cases stuck : config.mode = .full ∧ strangers p ≠ []
    · simp only [stuck.1, if_true] at underway off shorter
      obtain ⟨final, ended, same⟩ := run_of_putOff ready underway empty off stuck.2
        (((plan config).start p).queue.length - (strangers p).length)
      have steps : ((plan config).start p).queue.length + 2 =
          ((plan config).start p).queue.length - (strangers p).length + 1 + (strangers p).length + 1 := by
        rw [queue]
        omega
      rw [← steps] at ended
      refine ⟨_, final, ran.trans ended, ?_, by rw [if_pos stuck]⟩
      rw [same]
      exact .of_keeps underway.expands underway.keeps
    · have nothing : (if config.mode = .full then strangers p else []) = [] := by
        split
        · rename_i full
          by_contra nonempty
          exact stuck ⟨full, nonempty⟩
        · rfl
      rw [nothing] at underway
      obtain ⟨final, ended, same⟩ := run_of_nil config empty underway.pending
        (((plan config).start p).queue.length + 1)
      refine ⟨_, final, ran.trans ended, ?_, ?_⟩
      · rw [same]
        exact .of_keeps underway.expands underway.keeps
      · rw [if_neg stuck]
        exact ⟨_, rfl, underway.rounds, underway.applied⟩

/-- A lowering reports what its run did. -/
theorem lower_of_run (valid : config.validate = .ok ()) {verdict : Verdict Report}
    {final : Conversion.State}
    (ran : (plan config).run (2 * (((plan config).start p).queue.length + 1))
      ((plan config).start p) = (verdict, final)) :
    (lower config p).program = final.program ∧
      (∀ reason, verdict = .failed reason → (lower config p).verdict = .failed reason) ∧
      ∀ report, verdict = .done report →
        (lower config p).verdict = .done (stats config p final.program report) := by
  refine ⟨by simp only [lower, valid, ran], ?_, ?_⟩
  · rintro reason rfl
    simp only [lower, valid, ran]
  · rintro report rfl
    simp only [lower, valid, ran]

theorem isRefusal_of_isFault {reason : ConvertError} (fault : reason.IsFault) : reason.IsRefusal := by
  cases reason <;> trivial

theorem isFault_of_checked {α : Type} {op : Op} {outcome : Except StateUpdate.Fault α}
    {reason : ConvertError} (failed : StateUpdate.inspect.checked op outcome = .error reason) :
    reason.IsFault := by
  cases outcome <;> cases failed
  trivial

theorem isFault_of_single {op : Op} {values : List ValueId} {fault : Nat → StateUpdate.Fault}
    {reason : ConvertError} (failed : StateUpdate.inspect.single op values fault = .error reason) :
    reason.IsFault := by
  unfold StateUpdate.inspect.single at failed
  split at failed
  · cases failed
  · exact isFault_of_checked failed

theorem isFault_of_ir {α : Type} {outcome : Except IrError α} {reason : ConvertError}
    (failed : StateUpdate.inspect.ir outcome = .error reason) : reason.IsFault := by
  cases outcome <;> cases failed
  trivial

theorem isFault_of_inspect {counterBits : Nat} {reason : ConvertError}
    (failed : StateUpdate.inspect counterBits p id = .error reason) : reason.IsFault := by
  unfold StateUpdate.inspect at failed
  split at failed
  · cases failed
    trivial
  · rcases bind_eq_error.1 failed with failed | ⟨_, -, failed⟩
    · exact isFault_of_single failed
    rcases bind_eq_error.1 failed with failed | ⟨_, -, failed⟩
    · exact isFault_of_single failed
    rcases bind_eq_error.1 failed with failed | ⟨_, -, failed⟩
    · exact isFault_of_ir failed
    rcases bind_eq_error.1 failed with failed | ⟨_, -, failed⟩
    · exact isFault_of_checked failed
    rcases bind_eq_error.1 failed with failed | ⟨_, -, failed⟩
    · exact isFault_of_ir failed
    rcases bind_eq_error.1 failed with failed | ⟨⟨shape, elem⟩, -, failed⟩
    · exact isFault_of_checked failed
    dsimp only at failed
    split at failed <;> cases failed
    trivial

/-- A state update is refused for what it is, or for what the name of the counter stands for. -/
theorem isRefusal_of_refusal? {reason : ConvertError}
    (refused : StateUpdate.refusal? config p id = some reason) : reason.IsRefusal := by
  unfold StateUpdate.refusal? at refused
  cases passed : StateUpdate.inspect config.counterBits p id with
  | error other =>
    rw [passed] at refused
    cases refused
    exact isRefusal_of_isFault (isFault_of_inspect passed)
  | ok parts =>
    simp only [passed, Option.bind_eq_bind, Option.bind_eq_some_iff] at refused
    obtain ⟨d, -, op, -, clash⟩ := refused
    split at clash <;> cases clash
    trivial

/-- How a lowering with a valid configuration ends. -/
theorem lower_cases (ready : Ready p) (valid : config.validate = .ok ()) :
    (∃ front id rest reason, updates p = front ++ id :: rest ∧
      (∀ other ∈ front, StateUpdate.refusal? config p other = none) ∧
      StateUpdate.refusal? config p id = some reason ∧
      (lower config p).verdict = .failed reason ∧
      Rewritten config p (lower config p).program front) ∨
    (∀ id ∈ updates p, StateUpdate.refusal? config p id = none) ∧
      Rewritten config p (lower config p).program (updates p) ∧
      if config.mode = .full ∧ strangers p ≠ [] then
        (lower config p).verdict = .failed
          (.stuck (Conversion.Plan.illegalOps p (strangers p)) (updates p).length)
      else ∃ stats, (lower config p).verdict = .done stats ∧ stats.rounds = 1 ∧
        stats.applied = (updates p).length := by
  rcases run_start ready config with ⟨front, id, rest, reason, final, split, accepted, refused, ran,
    rewritten⟩ | ⟨accepted, verdict, final, ran, rewritten, ended⟩
  · obtain ⟨program, failed, -⟩ := lower_of_run valid ran
    rw [← program] at rewritten
    exact Or.inl ⟨front, id, rest, reason, split, accepted, refused, failed reason rfl, rewritten⟩
  · obtain ⟨program, failed, done⟩ := lower_of_run valid ran
    rw [← program] at rewritten
    refine Or.inr ⟨accepted, rewritten, ?_⟩
    by_cases stuck : config.mode = .full ∧ strangers p ≠ []
    · rw [if_pos stuck] at ended ⊢
      exact failed _ ended
    · rw [if_neg stuck] at ended ⊢
      obtain ⟨report, isDone, rounds, applied⟩ := ended
      exact ⟨_, done report isDone, rounds, applied⟩

/-- What a lowering leaves comes from expanding state updates, however it ends. -/
theorem exists_expands_lower (ready : Ready p) (config : Config) :
    ∃ ids, Expands config p ids (lower config p).program := by
  cases valid : config.validate with
  | error reason =>
    have same : (lower config p).program = p := by simp [lower, valid]
    exact ⟨[], by rw [same]; exact .nil⟩
  | ok done =>
    rcases lower_cases ready valid with ⟨front, _, _, _, -, -, -, -, rewritten⟩ | ⟨-, rewritten, -⟩
    · exact ⟨front, rewritten.expands⟩
    · exact ⟨_, rewritten.expands⟩

end

end Lowering

end RngLowering
