import RngLowering.Eval.Machine
import RngLowering.Outcome
import RngLowering.StateUpdate

set_option autoImplicit false

namespace RngLowering

namespace StateUpdate

/-- Can a counter be advanced by deltas of this type? -/
def properDelta (counterBits : Nat) (deltaTy : IntTy) : Bool :=
  deltaTy.isValid && decide (deltaTy.bits ≤ counterBits)

/-- Can a counter be read as this type, but for its size? -/
def properResult (ty : Ty) : Bool := ty.isTensor && ty.elem.isValid

section

variable {deltaTy : IntTy} {ty : Ty} {p : Program} {id : OpId} {op : Op} {delta result : ValueId}

theorem inspectDelta_int (counterBits : Nat) (deltaTy : IntTy) :
    ∃ fault, inspectDelta counterBits (.int deltaTy) =
      if properDelta counterBits deltaTy then .ok deltaTy else .error fault := by
  cases valid : deltaTy.isValid with
  | false => exact ⟨.deltaInvalid deltaTy, by simp [inspectDelta, properDelta, valid]⟩
  | true =>
    refine ⟨.deltaTooWide deltaTy counterBits, ?_⟩
    by_cases narrow : deltaTy.bits ≤ counterBits
    · simp [inspectDelta, properDelta, valid, narrow, Nat.not_lt_of_le narrow]
    · simp [inspectDelta, properDelta, valid, narrow, Nat.lt_of_not_le narrow]

theorem inspectResult_eq (ty : Ty) :
    ∃ shape fault, inspectResult ty =
      if properResult ty then .ok (shape, ty.elem) else .error fault := by
  cases ty with
  | int elem => exact ⟨[], .resultNotTensor (.int elem), rfl⟩
  | memref elem => exact ⟨[], .resultNotTensor (.memref elem), rfl⟩
  | tensor shape elem => exact ⟨shape, .elemInvalid elem, rfl⟩

/-- Inspection looks at the types first, and then at the size. -/
theorem inspect_of_types (found : p.op? id = some op) (operands : op.operands = [delta])
    (results : op.results = [result]) (deltaTyped : p.typeOf delta = .ok (.int deltaTy))
    (resultTyped : p.typeOf result = .ok ty) (counterBits : Nat) :
    ∃ parts reason, inspect counterBits p id =
      if properDelta counterBits deltaTy && properResult ty then
        if fits ty counterBits then .ok parts
        else .error (.packedOverflow ty.count ty.width counterBits op.loc)
      else .error (.malformed op.name reason op.loc) := by
  obtain ⟨deltaFault, deltaInspected⟩ := inspectDelta_int counterBits deltaTy
  obtain ⟨shape, resultFault, resultInspected⟩ := inspectResult_eq ty
  -- the delta is looked at before the result
  refine ⟨⟨delta, deltaTy, shape, ty.elem⟩,
    (if properDelta counterBits deltaTy then resultFault else deltaFault).message, ?_⟩
  simp only [inspect, found, operands, results, inspect.single, inspect.ir, ok_bind, deltaTyped,
    resultTyped, deltaInspected, resultInspected]
  by_cases suitsDelta : properDelta counterBits deltaTy = true
  · by_cases suitsResult : properResult ty = true
    · simp only [suitsDelta, suitsResult]
      rfl
    · simp only [suitsDelta, eq_false_of_ne_true suitsResult]
      rfl
  · simp only [eq_false_of_ne_true suitsDelta]
    rfl

/-- Where the result has no entry, inspection fails: for the delta if that is not proper. -/
theorem inspect_of_untyped (found : p.op? id = some op) (operands : op.operands = [delta])
    (results : op.results = [result]) (deltaTyped : p.typeOf delta = .ok (.int deltaTy))
    (untyped : p.typeOf result = .error (.unknownValue result)) (counterBits : Nat) :
    ∃ reason, inspect counterBits p id =
      if properDelta counterBits deltaTy then .error (.ir (.unknownValue result))
      else .error (.malformed op.name reason op.loc) := by
  obtain ⟨fault, deltaInspected⟩ := inspectDelta_int counterBits deltaTy
  refine ⟨fault.message, ?_⟩
  simp only [inspect, found, operands, results, inspect.single, inspect.ir, ok_bind, deltaTyped,
    untyped, deltaInspected]
  by_cases suits : properDelta counterBits deltaTy = true
  · simp only [suits]
    rfl
  · simp only [eq_false_of_ne_true suits]
    rfl

end

end StateUpdate

namespace Evaluator

open StateUpdate

variable {p : Program} {op : Op} {delta result : ValueId} {deltaTy : IntTy} {bits : Nat} {ty : Ty}
  {env : Env}

theorem intOperand_of_bound (operands : op.operands = [delta])
    (bound : env.lookup delta = some (.int deltaTy bits)) :
    intOperand env op 0 = .ok (deltaTy, bits) := by
  simp only [intOperand, operand, operands, List.getElem?_cons_zero, fetch, bound]
  rfl

theorem resultTy_of_typeOf (results : op.results = [result]) (typed : p.typeOf result = .ok ty) :
    resultTy p op = .ok ty := by
  simp only [resultTy, Op.result?, results, List.head?_cons, typed]

/-- Evaluation looks at the types first, and then at the size. -/
theorem updateParts_of_types (operands : op.operands = [delta]) (results : op.results = [result])
    (bound : env.lookup delta = some (.int deltaTy bits)) (resultTyped : p.typeOf result = .ok ty)
    (counterBits : Nat) :
    ∃ need shown, updateParts p counterBits env op =
      if properDelta counterBits deltaTy && properResult ty then
        if fits ty counterBits then .ok (deltaTy, bits, ty)
        else .error (.packedOverflow ty.count ty.width counterBits op.loc)
      else .error (.mismatch op.name need shown op.loc) := by
  have resultTest : (!ty.isTensor || !ty.elem.isValid) = !properResult ty := by
    rw [properResult, Bool.not_and]
  have deltaTest : (!deltaTy.isValid || decide (counterBits < deltaTy.bits)) =
      !properDelta counterBits deltaTy := by
    rw [properDelta, Bool.not_and, ← decide_not, decide_eq_decide.mpr Nat.not_le]
  -- the result is looked at before the delta
  refine ⟨if properResult ty then .delta counterBits else .validTensor,
    if properResult ty then deltaTy.text else ty.text, ?_⟩
  simp only [updateParts, intOperand_of_bound operands bound, resultTy_of_typeOf results resultTyped,
    ok_bind, resultTest, deltaTest]
  by_cases suitsResult : properResult ty = true
  · by_cases suitsDelta : properDelta counterBits deltaTy = true
    · simp only [suitsDelta, suitsResult]
      by_cases small : fits ty counterBits = true
      · rw [if_pos small]
        simp only [show ty.packedBits?.any (· ≤ counterBits) = true from small]
        rfl
      · rw [if_neg small]
        simp only [show ty.packedBits?.any (· ≤ counterBits) = false from eq_false_of_ne_true small]
        rfl
    · simp only [suitsResult, eq_false_of_ne_true suitsDelta]
      rfl
  · simp only [eq_false_of_ne_true suitsResult, Bool.and_false]
    rfl

theorem updateParts_of_untyped (operands : op.operands = [delta]) (results : op.results = [result])
    (bound : env.lookup delta = some (.int deltaTy bits))
    (untyped : p.typeOf result = .error (.unknownValue result)) (counterBits : Nat) :
    updateParts p counterBits env op = .error (.unbound result) := by
  have fails : resultTy p op = .error (.unbound result) := by
    simp only [resultTy, Op.result?, results, List.head?_cons, untyped]
  simp only [updateParts, intOperand_of_bound operands bound, fails, ok_bind]
  rfl

/-- A state update fails for its parts alone, and then the machine stays as it is. -/
theorem stateUpdate_of_parts (ev : Evaluator) (env : Env) (op : Op) (m : Machine) :
    (∀ parts, updateParts ev.program ev.config.counterBits env op = .ok parts →
      ∃ values after, ev.stateUpdate env op m = .ok values after) ∧
    ∀ reason, updateParts ev.program ev.config.counterBits env op = .error reason →
      ev.stateUpdate env op m = .error reason m := by
  constructor
  · intro parts passed
    unfold stateUpdate
    rw [passed]
    exact ⟨_, _, rfl⟩
  · intro reason failed
    unfold stateUpdate
    rw [failed]
    rfl

end Evaluator

open StateUpdate in
/-- Lowering and evaluation accept the same state updates. For an operation with a delta of a declared
integer type and one result, inspection passes just if evaluation succeeds with a delta of that type.
Both find the result too large in the same cases and with the same figures. If the result has a declared
type, then inspection finds the operation malformed just if evaluation finds a value or a type that it
does not expect. If it has none, then evaluation finds the result unbound, whatever the delta, while
inspection looks at the delta first. -/
theorem inspect_iff_stateUpdate {p : Program} {id : OpId} {op : Op} {delta result : ValueId}
    {deltaTy : IntTy} (found : p.op? id = some op) (operands : op.operands = [delta])
    (results : op.results = [result]) (deltaTyped : p.typeOf delta = .ok (.int deltaTy))
    (config : Config) {env : Env} {bits : Nat}
    (bound : env.lookup delta = some (.int deltaTy bits)) (m : Machine) :
    let inspected := inspect config.counterBits p id
    let evaluated := Evaluator.stateUpdate ⟨p, config⟩ env op m
    ((∃ parts, inspected = .ok parts) ↔ ∃ values after, evaluated = .ok values after) ∧
    (∀ elements wordSize counterBits loc,
      inspected = .error (.packedOverflow elements wordSize counterBits loc) ↔
        ∃ after, evaluated = .error (.packedOverflow elements wordSize counterBits loc) after) ∧
    (∀ ty, p.typeOf result = .ok ty →
      ((∃ name reason loc, inspected = .error (.malformed name reason loc)) ↔
        ∃ name need shown loc after, evaluated = .error (.mismatch name need shown loc) after)) ∧
    (p.value? result = none → evaluated = .error (.unbound result) m ∧
      ((∃ name reason loc, inspected = .error (.malformed name reason loc)) ↔
        properDelta config.counterBits deltaTy = false)) := by
  intro inspected evaluated
  obtain ⟨succeeds, fails⟩ := Evaluator.stateUpdate_of_parts ⟨p, config⟩ env op m
  cases entry : p.value? result with
  | none =>
    have untyped : p.typeOf result = .error (.unknownValue result) := by simp [Program.typeOf, entry]
    obtain ⟨reason, inspection⟩ :=
      inspect_of_untyped found operands results deltaTyped untyped config.counterBits
    have checks := Evaluator.updateParts_of_untyped operands results bound untyped config.counterBits
    by_cases suits : properDelta config.counterBits deltaTy = true
    · rw [if_pos suits] at inspection
      simp [inspected, evaluated, inspection, fails _ checks, untyped, suits]
    · rw [if_neg suits] at inspection
      simp [inspected, evaluated, inspection, fails _ checks, untyped, suits]
  | some info =>
    have resultTyped : p.typeOf result = .ok info.ty := by simp [Program.typeOf, entry]
    obtain ⟨parts, reason, inspection⟩ :=
      inspect_of_types found operands results deltaTyped resultTyped config.counterBits
    obtain ⟨need, shown, checks⟩ :=
      Evaluator.updateParts_of_types operands results bound resultTyped config.counterBits
    by_cases proper : (properDelta config.counterBits deltaTy && properResult info.ty) = true
    · rw [if_pos proper] at inspection checks
      by_cases small : fits info.ty config.counterBits = true
      · rw [if_pos small] at inspection checks
        obtain ⟨values, after, done⟩ := succeeds _ checks
        simp [inspected, evaluated, inspection, done]
      · rw [if_neg small] at inspection checks
        simp [inspected, evaluated, inspection, fails _ checks]
    · rw [if_neg proper] at inspection checks
      simp [inspected, evaluated, inspection, fails _ checks]

/-- A state update whose result has no elements, but whose leading dimensions have no size as their
product. -/
def oversized : Program where
  ops := #[some { kind := .func "f", args := [0], region := [1] },
    some { kind := .rngUpdate, operands := [0], results := [1], parent := some 0 }]
  values := #[⟨.int (.signless 32), .arg 0 0⟩,
    ⟨.tensor [9223372036854775808, 4, 0] (.signless 32), .result 1 0⟩]
  body := [0]

/-- The result counts as too large, in lowering and in evaluation. -/
theorem inspect_iff_stateUpdate_oversized :
    StateUpdate.inspect 128 oversized 1 = .error (.packedOverflow 18446744073709551615 32 128 none) ∧
      ∃ after, Evaluator.stateUpdate ⟨oversized, {}⟩ [(0, .int (.signless 32) 7)]
        { kind := .rngUpdate, operands := [0], results := [1], parent := some 0 } {} =
          .error (.packedOverflow 18446744073709551615 32 128 none) after := by
  have tooLarge : StateUpdate.inspect 128 oversized 1 =
      .error (.packedOverflow 18446744073709551615 32 128 none) := rfl
  have found : oversized.op? 1 =
      some { kind := .rngUpdate, operands := [0], results := [1], parent := some 0 } := rfl
  exact ⟨tooLarge, ((inspect_iff_stateUpdate found rfl rfl rfl {} rfl {}).2.1
    18446744073709551615 32 128 none).mp tooLarge⟩

/-- A state update whose result has no entry, with a delta that is too wide for the counter: inspection
finds it malformed, and evaluation finds the result unbound. -/
theorem inspect_malformed_of_unknown_result :
    let op : Op := { kind := .rngUpdate, operands := [0], results := [1], parent := some 0 }
    let p : Program :=
      { ops := #[some { kind := .func "f", args := [0], region := [1] }, some op],
        values := #[⟨.int (.signless 64), .arg 0 0⟩], body := [0] }
    let config : Config := { counterBits := 32 }
    config.validate = .ok () ∧ p.op? 1 = some op ∧ p.typeOf 0 = .ok (.int (.signless 64)) ∧
      p.value? 1 = none ∧
      (∃ reason, StateUpdate.inspect config.counterBits p 1 = .error (.malformed op.name reason none)) ∧
      Evaluator.stateUpdate ⟨p, config⟩ [(0, .int (.signless 64) 7)] op {} = .error (.unbound 1) {} :=
  ⟨rfl, rfl, rfl, rfl, ⟨_, rfl⟩, rfl⟩

end RngLowering
