import RngLowering.Proofs.Modes

/-!
Failures that change nothing. A state update is refused before the program is edited, and one that is not
refused is expanded without fail. Whether the name of the counter stands for something else is the same
before and after every expansion, so that it is noticed at the first state update or never.
-/

set_option autoImplicit false

namespace RngLowering

/-- The first definition of the counter's name is no counter. -/
def Program.Clashes (config : Config) (p : Program) : Prop :=
  ∃ d op, p.lookupSymbol? config.stateSymbol = some d ∧ p.op? d = some op ∧
    Counter.isCell op.kind config.counterBits = false

/-- What the name of the counter stands for stays. -/
theorem Program.Keeps.clashes_iff {config : Config} {p q : Program} {gone : List OpId}
    (keeps : p.Keeps config q gone) : q.Clashes config ↔ p.Clashes config := by
  cases before : p.lookupSymbol? config.stateSymbol with
  | none =>
    constructor
    · rintro ⟨d, op, defined, found, other⟩
      obtain ⟨cell, foundCell, isCell⟩ := keeps.counter before d defined
      rw [found] at foundCell
      cases foundCell
      rw [isCell] at other
      cases other
    · rintro ⟨d, op, defined, -⟩
      rw [before] at defined
      cases defined
  | some d =>
    obtain ⟨former, kept, found, after, foundKept, keptAs⟩ := keeps.keptAs_of_lookupSymbol? before
    simp [Clashes, before, after, found, foundKept, keptAs.kind]

namespace StateUpdate

variable {config : Config} {p q : Program} {id : OpId}

theorem not_clashes_of_accepted (accepted : refusal? config p id = none) : ¬p.Clashes config := by
  rintro ⟨d, op, defined, found, other⟩
  rw [(refusal?_eq_none accepted).2 d op defined found] at other
  cases other

/-- A mismatch is not a fault of the operation. -/
theorem clashes_of_symbolMismatch {sym : String} {kind : OpKind} {ty : Ty} {loc : Option Loc}
    (refused : refusal? config p id = some (.symbolMismatch sym kind ty loc)) : p.Clashes config := by
  unfold refusal? at refused
  cases passed : inspect config.counterBits p id with
  | error reason =>
    rw [passed] at refused
    cases refused
    exact (Lowering.isFault_of_inspect passed).elim
  | ok parts =>
    simp only [passed, Option.bind_eq_bind, Option.bind_eq_some_iff] at refused
    obtain ⟨d, defined, op, found, clash⟩ := refused
    split at clash
    · cases clash
    · rename_i other
      exact ⟨d, op, defined, found, by simpa using other⟩

/-- What passes inspection is refused in a program with a clash. -/
theorem refusal?_of_clashes {parts : Parts} (passed : inspect config.counterBits p id = .ok parts)
    (clashes : p.Clashes config) : ∃ kind loc, refusal? config p id =
      some (.symbolMismatch config.stateSymbol kind (Counter.cellTy config.counterBits) loc) := by
  obtain ⟨d, op, defined, found, other⟩ := clashes
  simp [refusal?, passed, defined, found, other]

/-- An expansion fails for a refusal alone, and has changed nothing then. -/
theorem expand_eq_error_iff (wf : p.WellFormed) {reason : ConvertError} :
    expand config id p = .error reason q ↔ refusal? config p id = some reason ∧ q = p := by
  constructor
  · intro failed
    cases refused : refusal? config p id with
    | some other =>
      rw [expand_of_refusal refused] at failed
      cases failed
      exact ⟨rfl, rfl⟩
    | none =>
      obtain ⟨⟨parts, passed⟩, -⟩ := refusal?_eq_none refused
      cases found : p.op? id with
      | none =>
        rw [inspect, found] at passed
        cases passed
      | some op =>
        obtain ⟨_, _, event, _, _, -, -, -, expanded⟩ := expand_eq_exchange wf found refused
        rw [expanded] at failed
        cases failed
  · rintro ⟨refused, rfl⟩
    exact expand_of_refusal refused

end StateUpdate

namespace Lowering

variable {config : Config} {p q : Program} {ids : List OpId} {o : Outline}

/-- Nothing is expanded in a program with a clash. -/
theorem Expands.eq_nil_of_clashes (expands : Expands config p ids q) (rep : p.Represents o)
    (clashes : p.Clashes config) : ids = [] := by
  cases expands with
  | nil => rfl
  | snoc front update last =>
    have still := (front.keeps rep).clashes_iff.mpr clashes
    exact absurd still (StateUpdate.not_clashes_of_accepted (StateUpdate.refusal?_of_expand last))

/-- A run on a program with a clash rewrites nothing. -/
theorem rewrites_eq_nil_of_clashes (rep : p.Represents o) (wf : p.WellFormed)
    (clashes : p.Clashes config) {fuel : Nat} {verdict : Verdict Report} {final : Conversion.State}
    (ended : verdict ≠ .exhausted)
    (ran : (plan config).run fuel ((plan config).start p) = (verdict, final)) :
    (plan config).rewrites fuel ((plan config).start p) = [] := by
  obtain ⟨last, -, counted, -, applied⟩ := Conversion.Plan.exists_last
    (fun s next counted => Counted.step rep wf counted) (counted_start config p) ended ran
  obtain ⟨ids, expands, length⟩ := counted.expands
  have started : ((plan config).start p).report.applied = 0 := rfl
  rw [expands.eq_nil_of_clashes rep clashes, List.length_nil] at length
  apply List.eq_nil_of_length_eq_zero
  omega

theorem rewrites_lower_eq_nil_of_clashes (ready : Ready p) (wf : p.WellFormed)
    (clashes : p.Clashes config) :
    (plan config).rewrites (2 * (((plan config).start p).queue.length + 1)) ((plan config).start p) =
      [] := by
  obtain ⟨o, rep⟩ := ready.represents
  rcases run_start ready config with ⟨_, _, _, reason, final, -, -, -, ran, -⟩ |
    ⟨-, verdict, final, ran, -, ended⟩
  · exact rewrites_eq_nil_of_clashes rep wf clashes (by simp) ran
  · refine rewrites_eq_nil_of_clashes rep wf clashes ?_ ran
    rintro rfl
    split at ended
    · cases ended
    · obtain ⟨report, absurd, -⟩ := ended
      cases absurd

theorem program_lower_of_clashes (ready : Ready p) (clashes : p.Clashes config) :
    (lower config p).program = p := by
  obtain ⟨o, rep⟩ := ready.represents
  obtain ⟨ids, expands⟩ := exists_expands_lower ready config
  exact expands.eq_of_nil (expands.eq_nil_of_clashes rep clashes)

/-- A lowering fails with a mismatch only if there was a clash from the start. -/
theorem clashes_of_lower (ready : Ready p) {sym : String} {kind : OpKind} {ty : Ty} {loc : Option Loc}
    (failed : (lower config p).verdict = .failed (.symbolMismatch sym kind ty loc)) :
    p.Clashes config := by
  cases valid : config.validate with
  | error reason =>
    simp only [lower, valid] at failed
    cases failed
  | ok done =>
    rcases lower_cases ready valid with ⟨_, id, _, reason, -, -, refused, verdict, -⟩ | ⟨-, -, ended⟩
    · rw [verdict] at failed
      cases failed
      exact StateUpdate.clashes_of_symbolMismatch refused
    · split at ended
      · rw [ended] at failed
        cases failed
      · obtain ⟨figures, verdict, -⟩ := ended
        rw [verdict] at failed
        cases failed

end Lowering

open Lowering StateUpdate in
/-- An expansion that fails was refused and has changed nothing. If the name of the counter stands for
something else, then a lowering rewrites nothing and leaves the program as it was; it fails with a
mismatch if it comes to a state update that has no fault, which is the first one. So it is whenever a
lowering fails with a mismatch. -/
theorem unchanged_of_clash (config : Config) :
    (∀ (p : Program) (id : OpId), p.WellFormed → ∀ reason q, expand config id p = .error reason q →
      refusal? config p id = some reason ∧ q = p) ∧
    ∀ (name text : String) (p : Program), Program.ofText name text = .ok p →
      let fuel := 2 * (((plan config).start p).queue.length + 1)
      (p.Clashes config →
        (lower config p).program = p ∧ (plan config).rewrites fuel ((plan config).start p) = [] ∧
        ∀ id rest parts, config.validate = .ok () → updates p = id :: rest →
          inspect config.counterBits p id = .ok parts → ∃ kind loc, (lower config p).verdict =
            .failed (.symbolMismatch config.stateSymbol kind (Counter.cellTy config.counterBits) loc)) ∧
      ∀ sym kind ty loc, (lower config p).verdict = .failed (.symbolMismatch sym kind ty loc) →
        p.Clashes config ∧ (lower config p).program = p ∧
          (plan config).rewrites fuel ((plan config).start p) = [] := by
  refine ⟨fun p id wf reason q failed => (expand_eq_error_iff wf).mp failed, ?_⟩
  intro name text p read fuel
  obtain ⟨o, isText⟩ := Program.exists_isText_of_ofText read
  have ready := ready_of_isText isText
  have wf : p.WellFormed := Program.wellFormed_of_build isText.numbered isText.built
  constructor
  · intro clashes
    refine ⟨program_lower_of_clashes ready clashes, rewrites_lower_eq_nil_of_clashes ready wf clashes, ?_⟩
    intro id rest parts valid first passed
    obtain ⟨kind, loc, refused⟩ := refusal?_of_clashes passed clashes
    refine ⟨kind, loc, (lower_expands ready valid).2 _ ?_⟩
    rw [firstRefusal?, first, List.findSome?_cons, refused]
  · intro sym kind ty loc failed
    have clashes := clashes_of_lower ready failed
    exact ⟨clashes, program_lower_of_clashes ready clashes,
      rewrites_lower_eq_nil_of_clashes ready wf clashes⟩

open Lowering StateUpdate in
/-- The name of the counter is that of the function with the state updates. -/
theorem unchanged_of_clash_function :
    let config : Config := { stateSymbol := "f" }
    let mismatch : ConvertError :=
      .symbolMismatch "f" (.func "f") (.memref (.signless 128)) (some ⟨"in", 1, 1⟩)
    ∃ p, Program.ofText "in" "func.func @f(%d: i32) \x7b
      %a = mhlo.rng_get_and_update_state %d : tensor<2xui32>
      %b = mhlo.rng_get_and_update_state %d : tensor<1xui8>\x7d" = .ok p ∧
      p.WellFormed ∧ p.Clashes config ∧ expand config 1 p = .error mismatch p ∧
      refusal? config p 1 = some mismatch ∧ (lower config p).verdict = .failed mismatch ∧
      (lower config p).program = p := by
  intro config mismatch
  obtain ⟨p, read, refused, failed⟩ : ∃ p, Program.ofText "in" "func.func @f(%d: i32) \x7b
      %a = mhlo.rng_get_and_update_state %d : tensor<2xui32>
      %b = mhlo.rng_get_and_update_state %d : tensor<1xui8>\x7d" = .ok p ∧
      refusal? config p 1 = some mismatch ∧ (lower config p).verdict = .failed mismatch := by
    apply Program.exists_of_chars
    decide +kernel
  obtain ⟨o, isText⟩ := Program.exists_isText_of_ofText read
  have wf : p.WellFormed := Program.wellFormed_of_build isText.numbered isText.built
  have expanded := expand_of_refusal refused
  obtain ⟨atomic, clash⟩ := unchanged_of_clash config
  obtain ⟨again, -⟩ := atomic p 1 wf mismatch p expanded
  obtain ⟨clashes, same, -⟩ := (clash "in" _ p read).2 _ _ _ _ failed
  exact ⟨p, read, wf, clashes, expanded, again, failed, same⟩

end RngLowering
