import Mathlib.Data.List.TakeWhile
import RngLowering.Proofs.Figures

set_option autoImplicit false

namespace RngLowering

namespace Lowering

variable {config : Config} {p q r : Program} {ids : List OpId}

theorem Expands.exists_last (expands : Expands config p ids r) :
    ids = [] ∧ r = p ∨ ∃ front id q events, ids = front ++ [id] ∧ Expands config p front q ∧
      StateUpdate.expand config id q = .ok events r := by
  cases expands with
  | nil => exact Or.inl ⟨rfl, rfl⟩
  | snoc front update last => exact Or.inr ⟨_, _, _, _, rfl, front, last⟩

/-- The state updates that are expanded, in order, decide what becomes of the program. -/
theorem Expands.unique (first : Expands config p ids q) (second : Expands config p ids r) : q = r := by
  induction first generalizing r with
  | nil =>
    rcases second.exists_last with ⟨-, same⟩ | ⟨front, id, _, _, split, -⟩
    · exact same.symm
    · simp at split
  | @snoc q after ids id events front update last ih =>
    rcases second.exists_last with ⟨nil, -⟩ | ⟨frontAgain, idAgain, before, _, split, expands, lastAgain⟩
    · simp at nil
    · obtain ⟨rfl, same⟩ := List.append_inj' split rfl
      cases same
      cases ih expands
      rw [last] at lastAgain
      cases lastAgain
      rfl

/-- The mode does not matter to an expansion. -/
theorem Expands.withMode (expands : Expands config p ids q) (mode : Mode) :
    Expands { config with mode } p ids q := by
  induction expands with
  | nil => exact .nil
  | snoc front update last ih => exact .snoc ih update last

/-- The state updates before the first one that is refused. -/
def accepted (config : Config) (p : Program) : List OpId :=
  (updates p).takeWhile fun id => (StateUpdate.refusal? config p id).isNone

def firstRefusal? (config : Config) (p : Program) : Option ConvertError :=
  (updates p).findSome? (StateUpdate.refusal? config p)

/-- A lowering expands what is accepted and ends with the first refusal, if there is one. -/
theorem lower_expands (ready : Ready p) (valid : config.validate = .ok ()) :
    Expands config p (accepted config p) (lower config p).program ∧
      ∀ reason, firstRefusal? config p = some reason → (lower config p).verdict = .failed reason := by
  rcases lower_cases ready valid with ⟨front, id, rest, reason, split, passed, refused, failed, rewritten⟩ |
    ⟨passed, rewritten, -⟩
  · have isAccepted : accepted config p = front := by
      rw [accepted, split, List.takeWhile_append_of_pos (by simpa using passed)]
      simp [refused]
    have first : firstRefusal? config p = some reason := by
      rw [firstRefusal?, split, List.findSome?_append, List.findSome?_eq_none_iff.mpr passed]
      simp [refused]
    rw [isAccepted, first]
    refine ⟨rewritten.expands, ?_⟩
    rintro _ ⟨⟩
    exact failed
  · have isAccepted : accepted config p = updates p := by
      rw [accepted, List.takeWhile_eq_self_iff]
      simpa using passed
    have first : firstRefusal? config p = none := List.findSome?_eq_none_iff.mpr passed
    rw [isAccepted, first]
    exact ⟨rewritten.expands, by simp⟩

theorem mem_updates {id : OpId} :
    id ∈ updates p ↔ id ∈ p.walk ∧ ∃ op, p.op? id = some op ∧ op.kind = .rngUpdate := by
  rw [updates, List.mem_filter, StateUpdate.isStateUpdate_iff]

theorem mem_strangers {id : OpId} :
    id ∈ strangers p ↔ id ∈ p.walk ∧ ∃ op, p.op? id = some op ∧ ¬op.kind.Legal ∧
      op.kind ≠ .rngUpdate := by
  rw [strangers, List.mem_filter, Option.any_eq_true]
  simp only [Bool.and_eq_true, decide_eq_true_eq]
  exact Iff.rfl

/-- The strangers are what is not legal once all state updates are rewritten. -/
theorem mem_strangers_iff (rewritten : Rewritten config p q (updates p)) {id : OpId} :
    id ∈ strangers p ↔ id ∈ q.walk ∧ ∃ op, q.op? id = some op ∧ ¬op.kind.Legal := by
  rw [mem_strangers]
  constructor
  · rintro ⟨mem, op, found, illegal, other⟩
    have stays : id ∉ updates p := by
      intro update
      obtain ⟨-, again, foundAgain, kind⟩ := mem_updates.mp update
      rw [found] at foundAgain
      cases foundAgain
      exact other kind
    obtain ⟨memAfter, again, kept, foundAgain, foundKept, kind, -⟩ := rewritten.kept id mem stays
    rw [found] at foundAgain
    cases foundAgain
    exact ⟨memAfter, kept, foundKept, kind ▸ illegal⟩
  · rintro ⟨memAfter, kept, foundKept, illegal⟩
    have mem : id ∈ p.walk := by
      by_contra new
      obtain ⟨again, foundAgain, legal⟩ := rewritten.created id memAfter new
      rw [foundKept] at foundAgain
      cases foundAgain
      exact illegal legal
    have stays : id ∉ updates p := by
      intro update
      rw [rewritten.gone id update] at foundKept
      cases foundKept
    obtain ⟨-, op, again, found, foundAgain, kind, -⟩ := rewritten.kept id mem stays
    rw [foundKept] at foundAgain
    cases foundAgain
    exact ⟨mem, op, found, kind ▸ illegal, fun update => stays (mem_updates.mpr ⟨mem, op, found, update⟩)⟩

theorem illegalCount_of_rewritten (nodup : p.walk.Nodup) (nodupAfter : q.walk.Nodup)
    (rewritten : Rewritten config p q (updates p)) : illegalCount q = (strangers p).length := by
  rw [illegalCount, List.countP_eq_length_filter]
  apply List.Perm.length_eq
  refine (List.perm_ext_iff_of_nodup (nodupAfter.filter _) (nodup.filter _)).mpr fun id => ?_
  rw [← strangers, mem_strangers_iff rewritten, List.mem_filter, Option.any_eq_true]
  simp only [decide_eq_true_eq]
  exact Iff.rfl

/-- How a lowering without a refusal ends. -/
theorem lower_of_accepted (ready : Ready p) (wf : p.WellFormed) (valid : config.validate = .ok ())
    (passed : firstRefusal? config p = none) :
    (finalStats config p).remainingIllegal = (strangers p).length ∧
    if config.mode = .full ∧ strangers p ≠ [] then
      (lower config p).verdict = .failed
        (.stuck (Conversion.Plan.illegalOps p (strangers p)) (updates p).length)
    else (lower config p).verdict = .done (finalStats config p) := by
  rw [firstRefusal?, List.findSome?_eq_none_iff] at passed
  rcases lower_cases ready valid with ⟨front, id, rest, reason, split, -, refused, -⟩ |
    ⟨-, rewritten, ended⟩
  · rw [passed id (by simp [split])] at refused
    cases refused
  · have wfAfter := (rewritten.expands.shares wf).wellFormed
    refine ⟨illegalCount_of_rewritten wf.nodup_walk wfAfter.nodup_walk rewritten, ?_⟩
    split
    · rename_i stuck
      rwa [if_pos stuck] at ended
    · rename_i finished
      rw [if_neg finished] at ended
      obtain ⟨figures, done, -⟩ := ended
      rw [done, eq_finalStats_of_done ready wf valid done]

theorem length_illegalOps_strangers (p : Program) :
    (Conversion.Plan.illegalOps p (strangers p)).length = (strangers p).length := by
  have live : ∀ id ∈ strangers p, ∃ op, p.op? id = some op := by
    intro id mem
    obtain ⟨-, op, found, -⟩ := mem_strangers.mp mem
    exact ⟨op, found⟩
  rw [← List.length_map (·.id), Conversion.Plan.map_id_illegalOps live]

end Lowering

open Lowering StateUpdate in
/-- The mode of a lowering decides its verdict alone. In both modes the same program is left. Either a
state update is refused for the same reason, or the lax lowering succeeds. Then the full one succeeds
with the same figures if the lax one left nothing that is not legal, and else gets stuck on as many
operations as that. -/
theorem lower_mode {name text : String} {p : Program} (read : Program.ofText name text = .ok p)
    {config : Config} (valid : config.validate = .ok ()) :
    let full := lower { config with mode := .full } p
    let lax := lower { config with mode := .lax } p
    full.program = lax.program ∧
      ((∃ id ∈ updates p, ∃ reason, refusal? config p id = some reason ∧ reason.IsRefusal ∧
          full.verdict = .failed reason ∧ lax.verdict = .failed reason) ∨
        ∃ figures, lax.verdict = .done figures ∧
          (figures.remainingIllegal = 0 → full.verdict = .done figures) ∧
          (figures.remainingIllegal ≠ 0 → ∃ remaining,
            full.verdict = .failed (.stuck remaining figures.applied) ∧
              remaining.length = figures.remainingIllegal)) := by
  intro full lax
  obtain ⟨o, isText⟩ := Program.exists_isText_of_ofText read
  have ready := ready_of_isText isText
  have wf : p.WellFormed := Program.wellFormed_of_build isText.numbered isText.built
  have validFull : Config.validate { config with mode := .full } = .ok () := valid
  have validLax : Config.validate { config with mode := .lax } = .ok () := valid
  obtain ⟨expandsFull, failsFull⟩ := lower_expands ready validFull
  obtain ⟨expandsLax, failsLax⟩ := lower_expands ready validLax
  -- what is accepted does not depend on the mode
  have same : (lower { config with mode := .full } p).program =
      (lower { config with mode := .lax } p).program := (expandsFull.withMode .lax).unique expandsLax
  refine ⟨same, ?_⟩
  cases first : firstRefusal? config p with
  | some reason =>
    obtain ⟨id, mem, refused⟩ := List.exists_of_findSome?_eq_some first
    exact Or.inl ⟨id, mem, reason, refused, isRefusal_of_refusal? refused, failsFull reason first,
      failsLax reason first⟩
  | none =>
    obtain ⟨-, endedFull⟩ := lower_of_accepted ready wf validFull first
    obtain ⟨left, endedLax⟩ := lower_of_accepted ready wf validLax first
    rw [if_neg (by simp)] at endedLax
    refine Or.inr ⟨_, endedLax, fun none => ?_, fun some => ?_⟩
    · have nothing : strangers p = [] := List.eq_nil_of_length_eq_zero (left.symm.trans none)
      have figures : finalStats { config with mode := .full } p =
          finalStats { config with mode := .lax } p := by
        simp only [finalStats, same]
        rfl
      rw [if_neg (by simp [nothing]), figures] at endedFull
      exact endedFull
    · have something : strangers p ≠ [] := by
        intro nothing
        rw [nothing] at left
        exact some left
      rw [if_pos ⟨rfl, something⟩] at endedFull
      exact ⟨_, endedFull, (length_illegalOps_strangers p).trans left.symm⟩

/-- The operations before and after the state update are not legal. -/
theorem lower_mode_between :
    ∃ p remaining, Program.ofText "in" "func.func @f(%d: i32) \x7b
      test.first %d
      %a = mhlo.rng_get_and_update_state %d : tensor<2xui32>
      test.last %a\x7d" = .ok p ∧
      Config.validate {} = .ok () ∧
      (lower { mode := .full } p).program = (lower { mode := .lax } p).program ∧
      (lower { mode := .lax } p).verdict = .done ⟨1, 4, 17, 1, 14, 1, 1, 2, 1⟩ ∧
      (lower { mode := .full } p).verdict = .failed (.stuck remaining 1) ∧ remaining.length = 2 := by
  obtain ⟨p, read, done⟩ : ∃ p, Program.ofText "in" "func.func @f(%d: i32) \x7b
      test.first %d
      %a = mhlo.rng_get_and_update_state %d : tensor<2xui32>
      test.last %a\x7d" = .ok p ∧
      (lower { mode := .lax } p).verdict = .done ⟨1, 4, 17, 1, 14, 1, 1, 2, 1⟩ := by
    apply Program.exists_of_chars
    decide +kernel
  have valid : Config.validate {} = .ok () := by decide
  obtain ⟨same, ⟨_, -, reason, -, -, -, failed⟩ | ⟨figures, succeeded, -, stuck⟩⟩ := lower_mode read valid
  · cases done.symm.trans failed
  · cases succeeded.symm.trans done
    obtain ⟨remaining, failed, length⟩ := stuck (by decide)
    exact ⟨p, remaining, read, valid, same, done, failed, length⟩

end RngLowering
