import Mathlib.Algebra.Order.Ring.Nat
import RngLowering.Proofs.Frame
import RngLowering.Proofs.Worklist

set_option autoImplicit false

namespace RngLowering

/-- All new operations are counted. -/
theorem Program.Reworked.length_createdSince {p q : Program} {σ : Substitution}
    (reworked : p.Reworked q σ) : (q.createdSince p.ops.size).length = q.ops.size - p.ops.size := by
  have all : ∀ id ∈ List.range' p.ops.size (q.ops.size - p.ops.size), q.isLive id = true := by
    intro id mem
    obtain ⟨since, upTo⟩ := List.mem_range'_1.mp mem
    exact isLive_iff.mpr (reworked.taken id since (by have := reworked.size; omega))
  rw [createdSince, List.filter_eq_self.mpr all, List.length_range']

def Program.typesOf (p : Program) (values : List ValueId) : List Ty :=
  values.filterMap fun v => (p.value? v).map (·.ty)

theorem Program.typesOf_singleton {p : Program} {v : ValueId} {ty : Ty} (typed : p.typeOf v = .ok ty) :
    p.typesOf [v] = [ty] := by
  obtain ⟨origin, entry⟩ := typeOf_eq_ok.mp typed
  simp [typesOf, entry]

namespace Lowering

/-- The state of a run that counted what it did. -/
structure Counted (config : Config) (p : Program) (s : Conversion.State) : Prop where
  expands : ∃ ids, Expands config p ids s.program ∧ ids.length = s.report.applied
  created : s.program.ops.size = p.ops.size + s.report.opsCreated
  erased : s.report.opsErased = s.report.applied

variable {config : Config} {p q : Program} {ids : List OpId} {s next : Conversion.State}

theorem counted_start (config : Config) (p : Program) : Counted config p ((plan config).start p) :=
  ⟨⟨[], .nil, rfl⟩, rfl, rfl⟩

section

variable {o : Outline} (rep : p.Represents o) (wf : p.WellFormed)

include rep wf

/-- A state update that is expanded is erased, and all that is new is created. -/
theorem Counted.account (counted : Counted config p s) {id : OpId}
    (update : StateUpdate.isStateUpdate s.program id = true) {news : List Event} {q : Program}
    (expanded : StateUpdate.expand config id s.program = .ok news q) (log : List Event) :
    Counted config p ((plan config).account s id q log) := by
  obtain ⟨ids, expands, applied⟩ := counted.expands
  have wfNow := (expands.shares wf).wellFormed
  obtain ⟨-, now, repNow, -⟩ := expands.outline rep
  obtain ⟨op, found, kind⟩ := StateUpdate.isStateUpdate_iff.mp update
  have isUpdate : id ∈ updates s.program :=
    List.mem_filter.mpr ⟨wfNow.mem_walk_of_op? found, update⟩
  -- the step by itself says what is new in it, and that its root is gone
  have step : Expands config s.program [id] q := .snoc .nil isUpdate expanded
  obtain ⟨σ, reworked⟩ := step.reworked wfNow (plainUpdates_of_represents repNow wfNow)
  have gone : q.isLive id = false := by
    simp [Program.isLive, ((step.keeps repNow).gone id (by simp)).2]
  refine ⟨⟨ids ++ [id], .snoc expands isUpdate expanded, ?_⟩, ?_, ?_⟩
  · rw [List.length_append, List.length_singleton, applied]
    rfl
  · have size := reworked.size
    have created := counted.created
    simp only [Conversion.Plan.account, reworked.length_createdSince]
    omega
  · simp [Conversion.Plan.account, gone, counted.erased]

theorem Counted.step (counted : Counted config p s)
    (taken : (plan config).Stepped s (.inl next)) : Counted config p next := by
  obtain ⟨expands, created, erased⟩ := counted
  cases taken with
  | gone queue dead => exact ⟨expands, created, erased⟩
  | putOff queue found unruled => exact ⟨expands, created, erased⟩
  | @rewritten id rest op rule news log events q queue found first succeeds =>
    obtain ⟨mem, -, applies⟩ := RuleSet.find?_eq_some first
    cases List.mem_singleton.mp mem
    have here : Counted config p { s with queue := rest, events } := ⟨expands, created, erased⟩
    exact here.account rep wf applies succeeds log
  | again queue _ => exact ⟨expands, created, erased⟩

/-- The figures of a run that succeeds. -/
theorem counted_run {fuel : Nat} {report : Report} {final : Conversion.State}
    (ran : (plan config).run fuel ((plan config).start p) = (.done report, final)) :
    final.program.ops.size = p.ops.size + report.opsCreated ∧ report.opsErased = report.applied := by
  obtain ⟨last, -, counted, taken, -⟩ := Conversion.Plan.exists_last
    (fun s next counted => Counted.step rep wf counted) (counted_start config p) (by simp) ran
  cases taken with
  | done queue converted left =>
    rw [left]
    exact ⟨counted.created, counted.erased⟩

end

def finalStats (config : Config) (p : Program) : Stats :=
  stats config p (lower config p).program
    { applied := (updates p).length
      opsCreated := (lower config p).program.ops.size - p.ops.size
      opsErased := (updates p).length
      rounds := 1 }

theorem eq_finalStats_of_done (ready : Ready p) (wf : p.WellFormed) (valid : config.validate = .ok ())
    {figures : Stats} (done : (lower config p).verdict = .done figures) :
    figures = finalStats config p := by
  rcases run_start ready config with ⟨front, id, rest, reason, final, -, -, -, ran, -⟩ |
    ⟨-, verdict, final, ran, -, ended⟩
  · rw [(lower_of_run valid ran).2.1 reason rfl] at done
    cases done
  · obtain ⟨program, failed, succeeded⟩ := lower_of_run valid ran
    split at ended
    · rw [failed _ ended] at done
      cases done
    · obtain ⟨report, rfl, rounds, applied⟩ := ended
      obtain ⟨o, rep⟩ := ready.represents
      obtain ⟨created, erased⟩ := counted_run rep wf ran
      have added : report.opsCreated = final.program.ops.size - p.ops.size := by omega
      rw [succeeded report rfl] at done
      cases done
      rw [finalStats, program, ← added, ← applied, ← rounds]
      nth_rewrite 2 [← erased]
      rfl

/-- How many operations a state update becomes: six that access and advance the counter and pack the
words, one that widens the delta if it is narrower than the counter, and three for each word. -/
def blockSize (config : Config) (p : Program) (id : OpId) : Nat :=
  match p.op? id with
  | none => 0
  | some op =>
    6 + (p.typesOf op.operands).countP (·.width < config.counterBits) +
      3 * ((p.typesOf op.results).map Ty.count).sum

theorem blockSize_of_inspect {id : OpId} {parts : StateUpdate.Parts}
    (passed : StateUpdate.inspect config.counterBits p id = .ok parts) (sym : String) (n : ValueId) :
    (StateUpdate.block sym config.wide parts n).length = blockSize config p id := by
  cases found : p.op? id with
  | none =>
    rw [StateUpdate.inspect, found] at passed
    cases passed
  | some op =>
    obtain ⟨operands, deltaTyped, -, upTo, -, small, r, results, typed⟩ :=
      StateUpdate.inspect_ok found passed
    have count : parts.resultTy.count = parts.count := by
      rw [Ty.count, StateUpdate.Parts.resultTy, (StateUpdate.count_of_fits small).1]
      rfl
    rw [StateUpdate.length_block upTo, blockSize, found]
    simp only [operands, results, Program.typesOf_singleton deltaTyped, Program.typesOf_singleton typed,
      List.countP_singleton, List.map_singleton, List.sum_singleton, count, decide_eq_true_eq]
    rfl

/-- Whatever was expanded before it, a state update becomes as many operations. -/
theorem blockSize_of_keeps {gone : List OpId} {id : OpId} {op : Op} {parts : StateUpdate.Parts}
    (keeps : p.Keeps config q gone) (found : p.op? id = some op) (here : id ∉ gone)
    (typed : ∀ v ∈ op.operands ++ op.results, ∃ ty, p.typeOf v = .ok ty)
    (passed : StateUpdate.inspect config.counterBits q id = .ok parts) (sym : String) (n : ValueId) :
    (StateUpdate.block sym config.wide parts n).length = blockSize config p id := by
  obtain ⟨delta, same⟩ := keeps.inspect_eq found here typed config.counterBits
  rw [passed] at same
  cases before : StateUpdate.inspect config.counterBits p id with
  | error reason =>
    rw [before] at same
    cases same
  | ok old =>
    rw [before] at same
    cases same
    have upTo : old.deltaTy.bits ≤ config.wide.bits := (StateUpdate.inspect_ok found before).2.2.2.1
    rw [← blockSize_of_inspect before sym n, StateUpdate.length_block upTo, StateUpdate.length_block]
    · rfl
    · exact upTo

/-- What is still to be expanded was there from the start. -/
theorem Expands.op?_of_mem_updates (expands : Expands config p ids q) {o : Outline}
    (rep : p.Represents o) {id : OpId} (update : id ∈ updates q) :
    id ∉ ids ∧ id ∈ p.walk ∧ ∃ op, p.op? id = some op := by
  have keeps := expands.keeps rep
  obtain ⟨inWalk, isUpdate⟩ := List.mem_filter.mp update
  obtain ⟨kept, found, kind⟩ := StateUpdate.isStateUpdate_iff.mp isUpdate
  refine ⟨?_, ?_⟩
  · intro gone
    rw [(keeps.gone id gone).2] at found
    cases found
  · rcases keeps.news id kept found with before | ⟨-, legal⟩
    · exact ⟨keeps.walkBack id inWalk before, Option.isSome_iff_exists.mp before⟩
    · rw [kind] at legal
      exact absurd legal (by decide)

/-- The counter is missing as long as nothing was expanded, if it was missing then. -/
theorem Expands.lookupSymbol?_eq_none_iff (expands : Expands config p ids q) (wf : p.WellFormed) :
    q.lookupSymbol? config.stateSymbol = none ↔
      ids = [] ∧ p.lookupSymbol? config.stateSymbol = none := by
  by_cases first : ids = []
  · rw [expands.eq_of_nil first]
    simp [first]
  · have defined := Option.isSome_iff_ne_none.mp (expands.lookupSymbol?_isSome wf first)
    simp [first, defined]

/-- Expanding state updates adds their blocks, and the counter if it was missing. -/
theorem Expands.size_ops (expands : Expands config p ids q) (ready : Ready p) (wf : p.WellFormed) :
    q.ops.size = p.ops.size +
      (if ids ≠ [] ∧ p.lookupSymbol? config.stateSymbol = none then 1 else 0) +
        (ids.map (blockSize config p)).sum := by
  obtain ⟨o, rep⟩ := ready.represents
  induction expands with
  | nil => simp
  | @snoc q r ids id events front update last ih =>
    have wfFront := (front.shares wf).wellFormed
    obtain ⟨here, inWalk, op, found⟩ := front.op?_of_mem_updates rep update
    obtain ⟨kept, foundKept, -⟩ := StateUpdate.isStateUpdate_iff.mp (List.mem_filter.mp update).2
    obtain ⟨parts, result, event, left, right, passed, -, -, expanded⟩ :=
      StateUpdate.expand_eq_exchange wfFront foundKept (StateUpdate.refusal?_of_expand last)
    rw [last] at expanded
    cases expanded
    have size := blockSize_of_keeps (front.keeps rep) found here (ready.typed id inWalk op found)
      passed config.stateSymbol q.values.size
    -- only the first expansion can find the counter missing
    have counter : (if q.lookupSymbol? config.stateSymbol = none then 1 else 0) +
        (if ids ≠ [] ∧ p.lookupSymbol? config.stateSymbol = none then 1 else 0) =
          if p.lookupSymbol? config.stateSymbol = none then 1 else 0 := by
      by_cases first : ids = [] <;> simp [front.lookupSymbol?_eq_none_iff wf, first]
    rw [Program.size_ops_exchange, Program.size_ops_withCounter, size, ih, List.map_append,
      List.sum_append, List.map_singleton, List.sum_singleton]
    simp only [ne_eq, List.append_eq_nil_iff, List.cons_ne_nil, and_false, not_false_eq_true,
      true_and] at counter ⊢
    omega

theorem countOps_rngUpdate (ready : Ready p) :
    p.countOps OpKind.rngUpdate.name = (updates p).length := by
  rw [Program.countOps, updates, ← List.countP_eq_length_filter]
  apply List.countP_congr
  intro id mem
  rw [Option.any_eq_true, StateUpdate.isStateUpdate_iff]
  simp only [decide_eq_true_eq]
  constructor
  · rintro ⟨op, found, named⟩
    exact ⟨op, found, ready.named id mem op found named⟩
  · rintro ⟨op, found, kind⟩
    exact ⟨op, found, congrArg OpKind.name kind⟩

/-- After a lowering, a walk comes to what was there but for the state updates, and to all that is
new. -/
theorem walk_perm (rewritten : p.Keeps config q (updates p)) (wf : p.WellFormed) (wfAfter : q.WellFormed)
    {σ : Substitution} (reworked : p.Reworked q σ) :
    q.walk.Perm (p.walk.filter (fun id => !StateUpdate.isStateUpdate p id) ++
      List.range' p.ops.size (q.ops.size - p.ops.size)) := by
  have disjoint : ∀ a ∈ p.walk.filter (fun id => !StateUpdate.isStateUpdate p id),
      ∀ b ∈ List.range' p.ops.size (q.ops.size - p.ops.size), a ≠ b := by
    intro a old b new same
    obtain ⟨op, found⟩ := Program.exists_of_mem_walk (List.mem_of_mem_filter old)
    exact Nat.not_lt_of_le (List.mem_range'_1.mp new).1 (same ▸ Program.op?_lt found)
  have nodup := List.nodup_append.mpr ⟨wf.nodup_walk.filter _, List.nodup_range', disjoint⟩
  refine (List.perm_ext_iff_of_nodup wfAfter.nodup_walk nodup).mpr fun id => ?_
  rw [List.mem_append, List.mem_filter, List.mem_range'_1, Nat.add_sub_of_le reworked.size]
  constructor
  · intro mem
    obtain ⟨kept, found⟩ := Program.exists_of_mem_walk mem
    rcases rewritten.news id kept found with before | ⟨since, -⟩
    · have inWalk := rewritten.walkBack id mem before
      refine Or.inl ⟨inWalk, ?_⟩
      rw [Bool.not_eq_true', Bool.eq_false_iff]
      intro isUpdate
      rw [(rewritten.gone id (List.mem_filter.mpr ⟨inWalk, isUpdate⟩)).2] at found
      cases found
    · exact Or.inr ⟨since, Program.op?_lt found⟩
  · rintro (⟨mem, other⟩ | ⟨since, upTo⟩)
    · apply rewritten.walk id mem
      intro isUpdate
      rw [(List.mem_filter.mp isUpdate).2] at other
      cases other
    · obtain ⟨made, here⟩ := reworked.taken id since upTo
      exact wfAfter.mem_walk_of_op? here

theorem expands_of_done (ready : Ready p) {figures : Stats}
    (done : (lower config p).verdict = .done figures) :
    config.validate = .ok () ∧ Expands config p (updates p) (lower config p).program := by
  cases valid : config.validate with
  | error reason =>
    simp only [lower, valid] at done
    cases done
  | ok _ =>
    rcases lower_cases ready valid with ⟨_, _, _, _, -, -, -, failed, -⟩ | ⟨-, rewritten, -⟩
    · rw [failed] at done
      cases done
    · exact ⟨rfl, rewritten.expands⟩

/-- The counter is created for the first state update, if it is missing. -/
theorem globalsCreated_finalStats (wf : p.WellFormed)
    (expands : Expands config p (updates p) (lower config p).program) :
    (finalStats config p).globalsCreated =
      if updates p ≠ [] ∧ p.lookupSymbol? config.stateSymbol = none then 1 else 0 := by
  simp only [finalStats, stats]
  by_cases some : updates p = []
  · rw [expands.eq_of_nil some]
    simp [some]
  · have defined := expands.lookupSymbol?_isSome wf some
    simp [some, defined]

end Lowering

open Lowering in
/-- The figures of a lowering that succeeds add up. As many rewrites are reported and as many operations
erased as there were state updates. The counter is created if there was one and no operation of the body
defined its name. The other operations that are created are in the blocks of the state updates. What
there is in the end is what there was, with what was created and without what was erased. -/
theorem lower_figures {name text : String} {p : Program} (read : Program.ofText name text = .ok p)
    {config : Config} {figures : Stats} (done : (lower config p).verdict = .done figures) :
    figures.applied = p.countOps OpKind.rngUpdate.name ∧
    figures.opsErased = p.countOps OpKind.rngUpdate.name ∧
    figures.globalsCreated ≤ 1 ∧
    (figures.globalsCreated = 1 ↔ 0 < p.countOps OpKind.rngUpdate.name ∧
      ∀ id ∈ p.body, ∀ op, p.op? id = some op → op.kind.defines config.stateSymbol = false) ∧
    figures.opsCreated = figures.globalsCreated + ((updates p).map (blockSize config p)).sum ∧
    figures.opsBefore = p.walk.length ∧
    figures.opsAfter + figures.opsErased = figures.opsBefore + figures.opsCreated ∧
    figures.opsAfter = (lower config p).program.walk.length := by
  obtain ⟨o, isText⟩ := Program.exists_isText_of_ofText read
  have ready := ready_of_isText isText
  have wf : p.WellFormed := Program.wellFormed_of_build isText.numbered isText.built
  obtain ⟨valid, expands⟩ := expands_of_done ready done
  obtain ⟨σ, reworked⟩ := expands.reworked wf (plainUpdates_of_represents isText.represents wf)
  have wfAfter := (expands.shares wf).wellFormed
  have size := expands.size_ops ready wf
  have walks := (walk_perm (expands.keeps isText.represents) wf wfAfter reworked).length_eq
  have parts := List.length_eq_length_filter_add (l := p.walk) (StateUpdate.isStateUpdate p)
  rw [List.length_append, List.length_range'] at walks
  rw [← updates] at parts
  have globals := globalsCreated_finalStats wf expands
  rw [countOps_rngUpdate ready, ← Program.lookupSymbol?_eq_none_iff, List.length_pos_iff,
    eq_finalStats_of_done ready wf valid done]
  refine ⟨rfl, rfl, ?_, ?_, ?_, wf.length_walk.symm, ?_, wfAfter.length_walk.symm⟩
  · rw [globals]
    split <;> omega
  · rw [globals]
    split <;> simp_all
  · rw [globals]
    show (lower config p).program.ops.size - p.ops.size = _
    omega
  · show (lower config p).program.numOps + (updates p).length =
      p.numOps + ((lower config p).program.ops.size - p.ops.size)
    rw [← wf.length_walk, ← wfAfter.length_walk]
    omega

open Lowering in
/-- A delta that is as wide as the counter, and one that is narrower. -/
theorem lower_figures_mixed :
    let config : Config := { counterBits := 8, seed := 9 }
    ∃ p, Program.ofText "in" "func.func @f(%d: i8, %e: si4) \x7b
%a = mhlo.rng_get_and_update_state %d : tensor<2xi4>
%b = mhlo.rng_get_and_update_state %e : tensor<1xi8>\x7d" = .ok p ∧
      (lower config p).verdict = .done ⟨1, 3, 24, 2, 23, 2, 1, 0, 1⟩ ∧
      p.countOps OpKind.rngUpdate.name = 2 ∧ ((updates p).map (blockSize config p)).sum = 22 ∧
      p.walk.length = 3 ∧ (lower config p).program.walk.length = 24 := by
  intro config
  obtain ⟨p, read, done⟩ : ∃ p, Program.ofText "in" "func.func @f(%d: i8, %e: si4) \x7b
%a = mhlo.rng_get_and_update_state %d : tensor<2xi4>
%b = mhlo.rng_get_and_update_state %e : tensor<1xi8>\x7d" = .ok p ∧
      (lower config p).verdict = .done ⟨1, 3, 24, 2, 23, 2, 1, 0, 1⟩ := by
    apply Program.exists_of_chars
    decide +kernel
  obtain ⟨applied, -, -, -, created, before, -, after⟩ := lower_figures read done
  simp only at created
  exact ⟨p, read, done, applied.symm, by omega, before.symm, after.symm⟩

end RngLowering
