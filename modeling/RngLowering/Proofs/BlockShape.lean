import RngLowering.Proofs.Frame
import RngLowering.Proofs.Requests
import RngLowering.Proofs.Words

/-!
The code that stands for a state update. Which operations there are, in which order and with which
operands and constants, follows from the width of the counter and from the types that the state update
declares. A result that fits the counter has at most as many words as the counter has bits, and every
word starts inside it, so that no constant loses a bit and no shift is out of range.
-/

set_option autoImplicit false

namespace RngLowering

namespace StateUpdate

/-- No product of leading dimensions overflows. -/
theorem foldl_take_lt {shape : List Nat} {start count : Nat}
    (done : shape.foldlM sizeMul? start = some count) (small : start < sizeLimit) (k : Nat) :
    (shape.take k).foldl (· * ·) start < sizeLimit := by
  induction shape generalizing start k with
  | nil =>
    rw [List.take_nil]
    exact small
  | cons dim rest ih =>
    cases k with
    | zero => exact small
    | succ k =>
      rw [List.foldlM_cons] at done
      obtain ⟨next, product, later⟩ := Option.bind_eq_some_iff.mp done
      unfold sizeMul? at product
      split at product
      · rename_i smaller
        cases product
        exact ih later smaller k
      · cases product

/-- Products of words of 64 bits are products, but for what overflows. -/
theorem toNat_foldl_mul (shape : List Nat) {start : UInt64} {a : Nat}
    (same : start.toNat = a % sizeLimit) :
    ((shape.map UInt64.ofNat).foldl (· * ·) start).toNat = shape.foldl (· * ·) a % sizeLimit := by
  induction shape generalizing start a with
  | nil => exact same
  | cons dim rest ih =>
    apply ih
    have limit : sizeLimit = 2 ^ 64 := rfl
    rw [UInt64.toNat_mul, same, UInt64.toNat_ofNat', ← limit, ← Nat.mul_mod]

/-- Every word starts inside the counter. -/
theorem amount_lt {config : Config} (valid : config.validate = .ok ()) {parts : Parts}
    (elemValid : parts.elem.isValid = true)
    (inside : parts.count * parts.elem.bits ≤ config.counterBits) {i : Nat} (word : i < parts.count) :
    i * parts.elem.bits < config.counterBits ∧
      truncate config.counterBits (i * parts.elem.bits) = i * parts.elem.bits := by
  obtain ⟨-, ⟨-, upTo⟩, -⟩ := Config.validate_eq_ok.mp valid
  have bits : 1 ≤ parts.elem.bits := by
    simp only [IntTy.isValid, Bool.and_eq_true, decide_eq_true_eq] at elemValid
    exact elemValid.1
  have below : i * parts.elem.bits < config.counterBits := by
    have next : (i + 1) * parts.elem.bits ≤ parts.count * parts.elem.bits :=
      Nat.mul_le_mul_right _ word
    rw [Nat.succ_mul] at next
    omega
  refine ⟨below, truncate_of_lt ?_⟩
  rw [bitLimit_of_le upTo]
  exact Nat.lt_trans below Nat.lt_two_pow_self

/-- The operations that a state update becomes, in order. Their values count from `first`. -/
def emitted (config : Config) (parts : Parts) (first : ValueId) : List Stmt :=
  let counter : IntTy := .signless config.counterBits
  let word : IntTy := .signless parts.elem.bits
  let narrow := parts.deltaTy.bits < config.counterBits
  let sum := if narrow then first + 3 else first + 2
  let amount (k : Nat) := sum + 1 + 3 * k
  let packed := amount parts.count
  [⟨.getGlobal config.stateSymbol, [], [(first, .memref counter)]⟩,
    ⟨.load, [first], [(first + 1, .int counter)]⟩] ++
  (if narrow then
    [⟨if parts.deltaTy.isSigned then .extsi else .extui, [parts.delta], [(first + 2, .int counter)]⟩]
  else []) ++
  [⟨.addi, [first + 1, if narrow then first + 2 else parts.delta], [(sum, .int counter)]⟩,
    ⟨.store, [sum, first], []⟩] ++
  ((List.range parts.count).flatMap fun k =>
    [⟨.constant ((parts.count - 1 - k) * parts.elem.bits), [], [(amount k, .int counter)]⟩,
      ⟨.shrui, [first + 1, amount k], [(amount k + 1, .int counter)]⟩,
      ⟨.trunci, [amount k + 1], [(amount k + 2, .int word)]⟩]) ++
  [⟨.fromElements, (List.range parts.count).map fun k => amount k + 2,
      [(packed, .tensor parts.shape word)]⟩,
    ⟨.cast, [packed], [(packed + 1, .tensor parts.shape parts.elem)]⟩]

theorem wordStmts_map_range (wide word : IntTy) (old : ValueId) (f : Nat → Nat) (n next : Nat) :
    wordStmts wide word old ((List.range n).map f) next =
      (List.range n).flatMap fun k =>
        [⟨.constant (truncate wide.bits (f k * word.bits)), [], [(next + 3 * k, .int wide)]⟩,
          ⟨.shrui, [old, next + 3 * k], [(next + 3 * k + 1, .int wide)]⟩,
          ⟨.trunci, [next + 3 * k + 1], [(next + 3 * k + 2, .int word)]⟩] := by
  induction n generalizing f next with
  | zero => rfl
  | succ n ih =>
    have later : ∀ k, next + 3 + 3 * k = next + 3 * (k + 1) := by
      intro k
      omega
    rw [List.range_succ_eq_map, List.map_cons, List.map_map, wordStmts, ih, List.flatMap_cons,
      List.flatMap_map]
    simp only [later]
    rfl

theorem wordValues_map_range (f : Nat → Nat) (n next : Nat) :
    wordValues ((List.range n).map f) next = (List.range n).map fun k => next + 3 * k + 2 := by
  induction n generalizing f next with
  | zero => rfl
  | succ n ih =>
    have later : ∀ k, next + 3 + 3 * k = next + 3 * (k + 1) := by
      intro k
      omega
    rw [List.range_succ_eq_map, List.map_cons, List.map_map, wordValues, ih, List.map_cons,
      List.map_map]
    simp only [later]
    rfl

theorem indices_eq_map (parts : Parts) :
    parts.indices = (List.range parts.count).map fun k => parts.count - 1 - k := by
  rw [Parts.indices, List.range_eq_range', List.reverse_range', ← List.range_eq_range']
  simp

section

variable {config : Config} {parts : Parts} (valid : config.validate = .ok ())
  (elemValid : parts.elem.isValid = true)
  (inside : parts.count * parts.elem.bits ≤ config.counterBits)

include valid elemValid inside

/-- No constant is cut. -/
theorem wordStmts_eq (old : ValueId) (next : Nat) :
    wordStmts config.wide parts.word old parts.indices next =
      (List.range parts.count).flatMap fun k =>
        [⟨.constant ((parts.count - 1 - k) * parts.elem.bits), [], [(next + 3 * k, .int config.wide)]⟩,
          ⟨.shrui, [old, next + 3 * k], [(next + 3 * k + 1, .int config.wide)]⟩,
          ⟨.trunci, [next + 3 * k + 1], [(next + 3 * k + 2, .int parts.word)]⟩] := by
  rw [indices_eq_map, wordStmts_map_range]
  apply List.flatMap_congr
  intro k mem
  have word : parts.count - 1 - k < parts.count := by
    have listed := List.mem_range.mp mem
    omega
  have amount := (amount_lt valid elemValid inside word).2
  show [_, _, _] = [_, _, _]
  rw [show truncate config.wide.bits ((parts.count - 1 - k) * parts.word.bits) =
    (parts.count - 1 - k) * parts.elem.bits from amount]

omit valid elemValid inside in
/-- The delta is widened just if it is narrower than the counter. -/
theorem delta_eq (upTo : parts.deltaTy.bits ≤ config.counterBits) (first : ValueId) :
    deltaStmts config.wide parts (first + 2) =
        (if parts.deltaTy.bits < config.counterBits then
          [⟨if parts.deltaTy.isSigned then .extsi else .extui, [parts.delta],
            [(first + 2, .int config.wide)]⟩]
        else []) ∧
      deltaValue config.wide parts (first + 2) =
        (if parts.deltaTy.bits < config.counterBits then first + 2 else parts.delta) ∧
      sumValue config.wide parts first =
        if parts.deltaTy.bits < config.counterBits then first + 3 else first + 2 := by
  by_cases narrow : parts.deltaTy.bits < config.counterBits
  · have differs : ¬parts.deltaTy.bits = config.wide.bits := Nat.ne_of_lt narrow
    rw [sumValue, deltaStmts, deltaValue, if_neg differs, if_neg differs, if_pos narrow, if_pos narrow,
      if_pos narrow]
    split <;> exact ⟨rfl, rfl, rfl⟩
  · have same : parts.deltaTy.bits = config.wide.bits :=
      Nat.le_antisymm upTo (Nat.le_of_not_lt narrow)
    rw [sumValue, deltaStmts, deltaValue, if_pos same, if_pos same, if_neg narrow, if_neg narrow,
      if_neg narrow]
    exact ⟨rfl, rfl, rfl⟩

/-- A block is made of the operations listed, with their constants in full. -/
theorem block_eq_emitted (upTo : parts.deltaTy.bits ≤ config.counterBits) (first : ValueId) :
    block config.stateSymbol config.wide parts first = emitted config parts first := by
  obtain ⟨delta, value, sum⟩ := delta_eq upTo first
  have values : ∀ next : Nat, wordValues parts.indices next =
      (List.range parts.count).map fun k => next + 3 * k + 2 := by
    intro next
    rw [indices_eq_map, wordValues_map_range]
  simp only [block, emitted, accessStmts, advanceStmts, packStmts, packedValue, delta, value, sum,
    wordStmts_eq valid elemValid inside, values, List.append_assoc]
  rfl

end

end StateUpdate

theorem Op.replaceUse_of_not_mem {op : Op} {old : ValueId} (unused : old ∉ op.operands) (new : ValueId) :
    op.replaceUse old new = op := by
  have same : op.operands.map (fun v => if v = old then new else v) = op.operands.map id := by
    apply List.map_congr_left
    intro v mem
    have apart : v ≠ old := by
      rintro rfl
      exact unused mem
    exact if_neg apart
  rw [Op.replaceUse, same, List.map_id]

theorem Op.not_mem_replaceUse {old new : ValueId} (apart : new ≠ old) (op : Op) :
    old ∉ (op.replaceUse old new).operands := by
  intro mem
  obtain ⟨v, -, same⟩ := List.mem_map.mp mem
  split at same
  · exact apart same
  · rename_i other
    exact other same

namespace Program

variable {config : Config} {p : Program} {id : OpId} {op : Op} {loc : Option Loc}

/-- The place of the counter, if it is created. -/
def newCells (config : Config) (p : Program) : List OpId :=
  if p.lookupSymbol? config.stateSymbol = none then [p.ops.size] else []

theorem size_ops_withCounter_eq :
    (p.withCounter config loc).ops.size = p.ops.size + (p.newCells config).length := by
  rw [size_ops_withCounter, newCells]
  split <;> rfl

/-- The counter comes first in the body, and all else stays. -/
theorem region_of_withCounter (wf : p.WellFormed) (found : p.op? id = some op) {front back : List OpId}
    (held : (p.withCounter config loc).region op.parent = .ok (front ++ id :: back)) :
    ∃ rest, front = (if op.parent = none then p.newCells config else []) ++ rest ∧
      p.region op.parent = .ok (rest ++ id :: back) := by
  cases parent : op.parent with
  | none =>
    rw [parent] at held
    have body : (p.withCounter config loc).body = front ++ id :: back := Except.ok.inj held
    rw [body_withCounter] at body
    cases defined : p.lookupSymbol? config.stateSymbol with
    | some d =>
      rw [defined] at body
      refine ⟨front, ?_, congrArg Except.ok body⟩
      simp [newCells, defined]
    | none =>
      rw [defined] at body
      cases front with
      | nil =>
        cases (List.cons.inj body).1
        exact absurd (op?_lt found) (Nat.lt_irrefl _)
      | cons first rest =>
        obtain ⟨rfl, same⟩ := List.cons.inj body
        refine ⟨rest, ?_, congrArg Except.ok same⟩
        simp [newCells, defined]
  | some owner =>
    obtain ⟨region, heldBefore, -⟩ := wf.placed id op found
    rw [parent] at held heldBefore
    obtain ⟨outer, foundOuter, rfl⟩ := op?_of_region heldBefore
    rw [region_of_op? (p.op?_withCounter config loc foundOuter)] at held
    refine ⟨front, ?_, ?_⟩
    · simp
    · rw [heldBefore, held]

theorem not_mem_subtree_withCounter (wf : p.WellFormed) (found : p.op? id = some op) {other : OpId}
    (outside : other ∉ p.subtree id) : other ∉ (p.withCounter config loc).subtree id := by
  have wfCounter := wf.withCounter config loc
  intro inside
  rw [wfCounter.mem_subtree (p.op?_withCounter config loc found)] at inside
  apply outside
  rw [wf.mem_subtree found]
  apply wfCounter.encloses_of_old ?_ inside
  rintro parent child above ⟨made, foundMade, isParent⟩
  rcases op?_of_withCounter foundMade with ⟨old, _, foundOld, rfl⟩ | ⟨-, -, rfl⟩
  · exact ⟨old, foundOld, isParent⟩
  · cases isParent

end Program

namespace StateUpdate

variable {config : Config} {p q : Program} {id : OpId} {op : Op} {parts : Parts}

/-- How many words there are, and where they start. -/
theorem sizes_of_inspect (valid : config.validate = .ok ()) (found : p.op? id = some op)
    (passed : inspect config.counterBits p id = .ok parts) :
    parts.count ≤ maxBits ∧ parts.resultTy.count? = some parts.count ∧
      (∀ k, (parts.shape.take k).foldl (· * ·) 1 < sizeLimit) ∧
      ((parts.shape.map UInt64.ofNat).foldl (· * ·) 1).toNat = parts.count ∧
      ∀ i < parts.count, i * parts.elem.bits < config.counterBits ∧
        truncate config.counterBits (i * parts.elem.bits) = i * parts.elem.bits := by
  obtain ⟨-, -, -, -, elemValid, small, -⟩ := inspect_ok found passed
  obtain ⟨counted, inside⟩ := count_of_fits small
  obtain ⟨-, ⟨-, upTo⟩, -⟩ := Config.validate_eq_ok.mp valid
  have prefixes := foldl_take_lt (counted parts.elem) (by decide)
  have total : parts.count < sizeLimit := by
    have all := prefixes parts.shape.length
    rwa [List.take_length] at all
  refine ⟨?_, counted parts.elem, prefixes, ?_, fun i => amount_lt valid elemValid inside⟩
  · simp only [IntTy.isValid, Bool.and_eq_true, decide_eq_true_eq] at elemValid
    have atLeast : parts.count * 1 ≤ parts.count * parts.elem.bits :=
      Nat.mul_le_mul_left _ elemValid.1
    omega
  · rw [toNat_foldl_mul parts.shape (a := 1) (by decide)]
    exact Nat.mod_eq_of_lt total

/-- A block does not use the result that it stands for. -/
theorem result_not_mem_operands {r : ValueId} (deltaTyped : p.typeOf parts.delta = .ok (.int parts.deltaTy))
    (typed : p.typeOf r = .ok parts.resultTy) {sym : String} {wide : IntTy} {s : Stmt}
    (mem : s ∈ block sym wide parts p.values.size) : r ∉ s.operands := by
  intro used
  rcases operands_block mem used with rfl | new
  · rw [deltaTyped] at typed
    cases typed
  · exact Nat.not_lt_of_le new (Program.typeOf_lt typed)

theorem lt_blockResult (wide : IntTy) (parts : Parts) (n : Nat) : n < blockResult wide parts n := by
  unfold blockResult packedValue sumValue
  omega

/-- An expansion exchanges the state update for the operations listed, and its result for theirs. -/
theorem exchange_of_expand (wf : p.WellFormed) (valid : config.validate = .ok ())
    (found : p.op? id = some op) (passed : inspect config.counterBits p id = .ok parts)
    {events : List Event} (expanded : expand config id p = .ok events q) :
    let made := emitted config parts p.values.size
    ∃ old new front back, op.results = [old] ∧ made.getLast?.map Stmt.defs = some [new] ∧
      (p.withCounter config op.loc).region op.parent = .ok (front ++ id :: back) ∧
      q = (p.withCounter config op.loc).exchange id op front.length made old new ∧
      NumberedFrom (p.withCounter config op.loc).values.size (made.flatMap Stmt.defs) ∧
      new ≠ old ∧ ∀ s ∈ made, old ∉ s.operands := by
  intro made
  obtain ⟨again, r, event, front, back, passedAgain, results, held, exchanged⟩ :=
    expand_eq_exchange wf found (refusal?_of_expand expanded)
  rw [passed] at passedAgain
  cases passedAgain
  rw [expanded] at exchanged
  cases exchanged
  obtain ⟨-, deltaTyped, -, upTo, elemValid, small, same, resultsAgain, typed⟩ :=
    inspect_ok found passed
  rw [results] at resultsAgain
  cases resultsAgain
  have shape : block config.stateSymbol config.wide parts p.values.size = made :=
    block_eq_emitted valid elemValid (count_of_fits small).2 upTo p.values.size
  obtain ⟨last, isLast, -, defs⟩ := getLast?_block config.stateSymbol config.wide parts p.values.size
  rw [← shape]
  refine ⟨r, blockResult config.wide parts p.values.size, front, back, results, ?_, held, rfl, ?_, ?_, ?_⟩
  · rw [isLast]
    exact congrArg some defs
  · rw [Program.values_withCounter]
    exact numbered_block config.stateSymbol config.wide parts p.values.size
  · exact Nat.ne_of_gt (Nat.lt_trans (Program.typeOf_lt typed) (lt_blockResult _ _ _))
  · intro s mem
    exact result_not_mem_operands deltaTyped typed mem

/-- What an expansion makes of a state update with a delta of an integer type and a tensor as its
result. The operations listed stand in its place, at its location; the last result that they define
takes over all uses of the one that is gone. There are at most as many words as a counter can have bits,
their number can be computed in 64 bits, and every word starts inside the counter, so that its constant
is not cut. -/
theorem expand_emitted (wf : p.WellFormed) (valid : config.validate = .ok ())
    (found : p.op? id = some op) (passed : inspect config.counterBits p id = .ok parts)
    {events : List Event} (expanded : expand config id p = .ok events q) :
    let made := emitted config parts p.values.size
    let cells := p.newCells config
    let start := p.ops.size + cells.length
    (∃ front back, p.region op.parent = .ok (front ++ id :: back) ∧
      q.region op.parent = .ok ((if op.parent = none then cells else []) ++ front ++
        List.range' start made.length ++ back)) ∧
    q.ops.size = start + made.length ∧
    (∀ k s, made[k]? = some s → q.op? (start + k) = some (s.toOp op.parent op.loc) ∧
      ∀ v ty, (v, ty) ∈ s.results → q.typeOf v = .ok ty) ∧
    op.operands = [parts.delta] ∧ p.typeOf parts.delta = .ok (.int parts.deltaTy) ∧
    (∃ old new, op.results = [old] ∧ p.typeOf old = .ok (.tensor parts.shape parts.elem) ∧
      made.getLast?.map Stmt.defs = some [new] ∧ q.op? id = none ∧
      (∀ other before, p.op? other = some before → other ∉ p.subtree id → ∃ kept,
        q.op? other = some kept ∧
          kept.operands = before.operands.map fun v => if v = old then new else v) ∧
      ∀ other kept, q.op? other = some kept → old ∉ kept.operands) ∧
    parts.count ≤ 128 ∧ parts.resultTy.count? = some parts.count ∧
    (∀ k, (parts.shape.take k).foldl (· * ·) 1 < sizeLimit) ∧
    ((parts.shape.map UInt64.ofNat).foldl (· * ·) 1).toNat = parts.count ∧
    ∀ i < parts.count, i * parts.elem.bits < config.counterBits ∧
      truncate config.counterBits (i * parts.elem.bits) = i * parts.elem.bits := by
  intro made cells start
  obtain ⟨old, new, front, back, results, isLast, held, rfl, numbered, apart, unused⟩ :=
    exchange_of_expand wf valid found passed expanded
  obtain ⟨operands, deltaTyped, -, -, -, -, same, resultsAgain, typed⟩ := inspect_ok found passed
  rw [results] at resultsAgain
  cases resultsAgain
  have wfCounter := wf.withCounter config op.loc
  have foundCounter := p.op?_withCounter config op.loc found
  refine ⟨?_, ?_, ?_, operands, deltaTyped, ⟨old, new, results, typed, isLast, ?_, ?_, ?_⟩,
    sizes_of_inspect valid found passed⟩
  · obtain ⟨rest, isFront, heldBefore⟩ := Program.region_of_withCounter wf found held
    refine ⟨rest, back, heldBefore, ?_⟩
    rw [Program.region_exchange_self wfCounter foundCounter held, isFront,
      Program.size_ops_withCounter_eq]
  · rw [Program.size_ops_exchange, Program.size_ops_withCounter_eq]
  · intro k s listed
    have mem := List.mem_of_getElem? listed
    constructor
    · have placed := Program.op?_exchange_new wfCounter foundCounter held numbered listed old new
      rw [Program.size_ops_withCounter_eq] at placed
      rw [placed, Op.replaceUse_of_not_mem (unused s mem)]
    · intro v ty isResult
      rw [Program.typeOf_exchange]
      exact Program.types_place numbered v ty (List.mem_flatMap.mpr ⟨s, mem, isResult⟩)
  · apply Option.eq_none_iff_forall_ne_some.mpr
    intro kept here
    exact (Program.op?_of_exchange wfCounter foundCounter ⟨_, held⟩ numbered here).1 rfl
  · intro other before here outside
    obtain ⟨inside, kept⟩ := Program.op?_exchange_outside wfCounter foundCounter held numbered
      (p.op?_withCounter config op.loc here) (Program.not_mem_subtree_withCounter wf found outside)
      old new
    exact ⟨_, kept, rfl⟩
  · intro other kept here
    rcases (Program.op?_of_exchange wfCounter foundCounter ⟨_, held⟩ numbered here).2 with
      ⟨before, _, -, rfl⟩ | ⟨-, s, -, _, rfl⟩
    · exact Op.not_mem_replaceUse apart before
    · exact Op.not_mem_replaceUse apart (s.toOp op.parent op.loc)

/-- A counter of five bits, a signed delta of three, and two words of two. -/
theorem expand_emitted_narrow :
    let config : Config := { counterBits := 5, seed := 9 }
    let counter : IntTy := .signless 5
    let word : IntTy := .signless 2
    let p := Request.reach "in" [.addFunction "f" [.int ⟨3, .signed⟩] none,
      .push (some 0) { kind := .rngUpdate, operands := [0] } rfl [.tensor [2] ⟨2, .unsigned⟩]]
    p.WellFormed ∧ config.validate = .ok () ∧ ∃ op q events, p.op? 1 = some op ∧
      inspect 5 p 1 = .ok ⟨0, ⟨3, .signed⟩, [2], ⟨2, .unsigned⟩⟩ ∧ expand config 1 p = .ok events q ∧
      q.ops.size = 16 ∧ ∀ k s,
        [⟨.getGlobal "rng_state", [], [(2, .memref counter)]⟩, ⟨.load, [2], [(3, .int counter)]⟩,
          ⟨.extsi, [0], [(4, .int counter)]⟩, ⟨.addi, [3, 4], [(5, .int counter)]⟩,
          ⟨.store, [5, 2], []⟩,
          ⟨.constant 2, [], [(6, .int counter)]⟩, ⟨.shrui, [3, 6], [(7, .int counter)]⟩,
          ⟨.trunci, [7], [(8, .int word)]⟩,
          ⟨.constant 0, [], [(9, .int counter)]⟩, ⟨.shrui, [3, 9], [(10, .int counter)]⟩,
          ⟨.trunci, [10], [(11, .int word)]⟩,
          ⟨.fromElements, [8, 11], [(12, .tensor [2] word)]⟩,
          (⟨.cast, [12], [(13, .tensor [2] ⟨2, .unsigned⟩)]⟩ : Stmt)][k]? = some s →
        q.op? (3 + k) = some (s.toOp op.parent op.loc) := by
  intro config counter word p
  have wf : p.WellFormed := Program.wellFormed_reach _ _ rfl
  have valid : config.validate = .ok () := by decide
  have found : p.op? 1 = some { kind := .rngUpdate, operands := [0], results := [1], parent := some 0 } := by
    decide
  have passed : inspect config.counterBits p 1 = .ok ⟨0, ⟨3, .signed⟩, [2], ⟨2, .unsigned⟩⟩ := by decide
  have accepted : refusal? config p 1 = none := by decide
  obtain ⟨_, _, event, _, _, -, -, -, expanded⟩ := expand_eq_exchange wf found accepted
  obtain ⟨-, size, placed, -⟩ := expand_emitted wf valid found passed expanded
  exact ⟨wf, valid, _, _, _, found, passed, expanded, size, fun k s listed => (placed k s listed).1⟩

end StateUpdate

end RngLowering
