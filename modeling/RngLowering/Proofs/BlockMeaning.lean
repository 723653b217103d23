import RngLowering.Proofs.Expansion
import RngLowering.Proofs.Words

set_option autoImplicit false

namespace RngLowering

theorem truncate_truncate_add (bits a b : Nat) :
    truncate bits (truncate bits a + b) = truncate bits (a + b) := Nat.mod_add_mod _ _ _

theorem truncate_add_truncate (bits a b : Nat) :
    truncate bits (a + truncate bits b) = truncate bits (a + b) := Nat.add_mod_mod _ _ _

/-- The bits of a word that lie inside a wider one do not depend on those above it. -/
theorem truncate_shiftRight_truncate {bits width shift : Nat} (inside : shift + width ≤ bits)
    (fits : bits ≤ maxBits) (value : Nat) :
    truncate width (truncate bits (truncate bits value >>> shift)) =
      truncate width (value >>> shift) := by
  have widthFits : width ≤ maxBits := by omega
  simp only [truncate, bitLimit_of_le fits, bitLimit_of_le widthFits]
  refine Nat.eq_of_testBit_eq fun i => ?_
  simp only [Nat.testBit_mod_two_pow, Nat.testBit_shiftRight]
  by_cases low : i < width
  · have inBits : i < bits := by omega
    have shifted : shift + i < bits := by omega
    simp [low, inBits, shifted]
  · simp [low]

/-- What the statements for one word compute from a value and the index of the word. -/
def wordAt (wide word : IntTy) (value index : Nat) : Nat :=
  let amount := truncate wide.bits (index * word.bits)
  truncate word.bits (truncate wide.bits (if wide.bits ≤ amount then 0 else value >>> amount))

/-- A word that lies inside the counter is a chunk of it. -/
theorem wordAt_eq_chunk {wide word : IntTy} {index : Nat} (fits : wide.bits ≤ maxBits)
    (wordValid : word.isValid = true) (inside : (index + 1) * word.bits ≤ wide.bits) (value : Nat) :
    wordAt wide word (truncate wide.bits value) index = chunk value word.bits index := by
  have positive : 1 ≤ word.bits := (IntTy.isValid_iff.mp wordValid).1
  have upTo : index * word.bits + word.bits ≤ wide.bits := by rwa [← Nat.succ_mul]
  have below : index * word.bits < wide.bits := by omega
  have amount : truncate wide.bits (index * word.bits) = index * word.bits := by
    refine truncate_of_lt ?_
    rw [bitLimit_of_le fits]
    exact Nat.lt_trans below Nat.lt_two_pow_self
  simp only [wordAt, chunk, amount]
  rw [if_neg (by omega), if_neg (by omega)]
  exact truncate_shiftRight_truncate upTo fits value

namespace StateUpdate

section

variable {config : Config} {s : Stmt} {r n : ValueId} {parts : Parts} {env : Env}
  {cells : Table Cell} {cell : Cell} {sym : String} {wide : IntTy}

theorem Proper.count_eq (proper : Proper config.counterBits s r parts) :
    (∀ elem, (Ty.tensor parts.shape elem).count = parts.count) ∧
      parts.count * parts.elem.bits ≤ config.counterBits := by
  obtain ⟨counted, small⟩ := count_of_fits proper.fits
  refine ⟨fun elem => ?_, small⟩
  rw [Ty.count, counted elem]
  rfl

theorem int?_of_bound {index : Nat} {v : ValueId} {ty : IntTy} {bits : Nat}
    (operand : s.operands[index]? = some v) (bound : env.lookup v = some (.int ty bits)) :
    s.int? env index = some (ty, bits) := by
  simp [Stmt.int?, Stmt.operand?, operand, bound]

theorem int?_of_unbound {index : Nat} {v : ValueId} (operand : s.operands[index]? = some v)
    (notInt : ∀ ty bits, env.lookup v ≠ some (.int ty bits)) : s.int? env index = none := by
  unfold Stmt.int? Stmt.operand?
  rw [operand, Option.bind_some]
  cases bound : env.lookup v with
  | none => rfl
  | some value =>
    cases value with
    | int ty bits => exact absurd bound (notInt ty bits)
    | tensor ty elems => rfl
    | ref sym => rfl

/-- A state update gives the words of the counter and advances it. -/
theorem Proper.act? (proper : Proper config.counterBits s r parts)
    (counter : cells.lookup config.stateSymbol = some cell) {delta : Nat}
    (bound : env.lookup parts.delta = some (.int parts.deltaTy delta)) :
    s.act? config env cells =
      some ([.tensor parts.resultTy (chunks cell.value parts.elem.bits parts.count)],
        cells.put config.stateSymbol (Evaluator.advance cell parts.deltaTy delta)) := by
  have int : s.int? env 0 = some (parts.deltaTy, delta) :=
    int?_of_bound (by rw [proper.operands]; rfl) bound
  have types : s.types.head? = some parts.resultTy := by
    rw [Stmt.types, proper.results]
    rfl
  have fits : parts.resultTy.packedBits?.any (· ≤ config.counterBits) = true := proper.fits
  have update : s.update? config.counterBits env = some (parts.deltaTy, delta, parts.resultTy) := by
    have isTensor : parts.resultTy.isTensor = true := rfl
    have elem : parts.resultTy.elem.isValid = true := proper.elemValid
    have narrow : ¬config.counterBits < parts.deltaTy.bits := Nat.not_lt.mpr proper.deltaFits
    simp [Stmt.update?, int, types, isTensor, elem, proper.deltaValid, narrow, fits]
  have found : Evaluator.counterCell config { cells } = cell := by
    simp [Evaluator.counterCell, Machine.cell?, counter]
  have count : parts.resultTy.count = parts.count := proper.count_eq.1 parts.elem
  simp only [Stmt.act?, proper.kind, update, found]
  rw [← count]
  rfl

theorem Proper.act?_of_unbound (proper : Proper config.counterBits s r parts)
    (notInt : ∀ ty bits, env.lookup parts.delta ≠ some (.int ty bits)) :
    s.act? config env cells = none := by
  have int : s.int? env 0 = none := int?_of_unbound (by rw [proper.operands]; rfl) notInt
  simp [Stmt.act?, proper.kind, Stmt.update?, int]

/-- Statements run to their end and lead from one environment and cells to others. -/
def Runs (config : Config) (env : Env) (cells : Table Cell) (body : List Stmt) (after : Env)
    (cellsAfter : Table Cell) : Prop :=
  ∀ rest, exec config env (body ++ rest) cells = exec config after rest cellsAfter

theorem Runs.nil (config : Config) (env : Env) (cells : Table Cell) :
    Runs config env cells [] env cells := fun _ => rfl

theorem Runs.append {middle after : Env} {cellsMiddle cellsAfter : Table Cell}
    {front back : List Stmt} (first : Runs config env cells front middle cellsMiddle)
    (second : Runs config middle cellsMiddle back after cellsAfter) :
    Runs config env cells (front ++ back) after cellsAfter := by
  intro rest
  rw [List.append_assoc, first, second]

theorem Runs.cons {bound : List Value} {after : Env} {cellsMiddle cellsAfter : Table Cell}
    {body : List Stmt} (notRet : s.kind ≠ .ret)
    (acts : s.act? config env cells = some (bound, cellsMiddle))
    (later : Runs config (bindAll s.defs bound env) cellsMiddle body after cellsAfter) :
    Runs config env cells (s :: body) after cellsAfter := by
  intro rest
  rw [← later rest]
  simp only [List.cons_append, exec, if_neg notRet, acts]

theorem exec_of_act?_none (notRet : s.kind ≠ .ret) (fails : s.act? config env cells = none)
    (rest : List Stmt) : exec config env (s :: rest) cells = (none, cells) := by
  simp only [exec, if_neg notRet, fails]

/-- Nothing is bound anew below a value. -/
def SameBelow (n : ValueId) (env after : Env) : Prop := ∀ v, v < n → after.lookup v = env.lookup v

theorem SameBelow.refl (n : ValueId) (env : Env) : SameBelow n env env := fun _ _ => rfl

theorem SameBelow.trans {m : ValueId} {middle after : Env} (first : SameBelow n env middle)
    (second : SameBelow m middle after) (le : n ≤ m) : SameBelow n env after :=
  fun v below => (second v (Nat.lt_of_lt_of_le below le)).trans (first v below)

theorem SameBelow.bind {after : Env} (same : SameBelow n env after) {v : ValueId} (above : n ≤ v)
    (value : Value) : SameBelow n env ((v, value) :: after) := by
  intro w below
  rw [List.lookup_cons, beq_false_of_ne (Nat.ne_of_lt (Nat.lt_of_lt_of_le below above))]
  exact same w below

theorem runs_accessStmts (config : Config) (counter : cells.lookup sym = some cell) (wide : IntTy)
    (n : ValueId) :
    Runs config env cells (accessStmts sym wide n)
      ((n + 1, .ofNat cell.elem cell.value) :: (n, .ref sym) :: env) cells := by
  have access : Stmt.act? config ⟨.getGlobal sym, [], [(n, .memref wide)]⟩ env cells =
      some ([.ref sym], cells) := by
    simp [Stmt.act?, counter]
  have load : Stmt.act? config ⟨.load, [n], [(n + 1, .int wide)]⟩ ((n, .ref sym) :: env) cells =
      some ([.ofNat cell.elem cell.value], cells) := by
    simp [Stmt.act?, Stmt.cell?, Stmt.operand?, counter]
  exact .cons (by simp) access (.cons (by simp) load (.nil _ _ _))

/-- Widening gives the delta at the width of the cell. -/
theorem runs_deltaStmts (config : Config) (cells : Table Cell) (elem : cell.elem = wide) {delta : Nat}
    (bound : env.lookup parts.delta = some (.int parts.deltaTy delta)) (next : ValueId) :
    ∃ after ty value, Runs config env cells (deltaStmts wide parts next) after cells ∧
      SameBelow next env after ∧
      after.lookup (deltaValue wide parts next) = some (.int ty value) ∧
      truncate wide.bits value =
        truncate wide.bits (Evaluator.widenDelta cell parts.deltaTy delta) := by
  unfold deltaStmts deltaValue Evaluator.widenDelta
  rw [elem]
  by_cases same : parts.deltaTy.bits = wide.bits
  · rw [if_pos same, if_pos same]
    refine ⟨env, _, _, .nil _ _ _, .refl _ _, bound, ?_⟩
    split
    · simp [signExtend, same]
    · simp
  · rw [if_neg same, if_neg same]
    have sameBelow : ∀ value, SameBelow next env ((next, value) :: env) :=
      (SameBelow.refl next env).bind (Nat.le_refl next)
    cases isSigned : parts.deltaTy.isSigned with
    | true =>
      have int : Stmt.int? ⟨.extsi, [parts.delta], [(next, .int wide)]⟩ env 0 =
          some (parts.deltaTy, delta) := int?_of_bound rfl bound
      have acts : Stmt.act? config ⟨.extsi, [parts.delta], [(next, .int wide)]⟩ env cells =
          some ([.ofNat wide (signExtend delta parts.deltaTy.bits wide.bits)], cells) := by
        simp [Stmt.act?, Stmt.compute?, int, Stmt.types, Stmt.intResult?, Ty.width, Ty.elem]
      exact ⟨_, wide, _, .cons (by simp) acts (.nil _ _ _), sameBelow _, List.lookup_cons_self,
        truncate_truncate _ _⟩
    | false =>
      have int : Stmt.int? ⟨.extui, [parts.delta], [(next, .int wide)]⟩ env 0 =
          some (parts.deltaTy, delta) := int?_of_bound rfl bound
      have acts : Stmt.act? config ⟨.extui, [parts.delta], [(next, .int wide)]⟩ env cells =
          some ([.ofNat wide delta], cells) := by
        simp [Stmt.act?, Stmt.compute?, int, Stmt.types, Stmt.intResult?]
      exact ⟨_, wide, _, .cons (by simp) acts (.nil _ _ _), sameBelow _, List.lookup_cons_self,
        by simp⟩

theorem lt_sumValue (wide : IntTy) (parts : Parts) (n : Nat) : n + 1 < sumValue wide parts n :=
  Nat.lt_of_lt_of_le (Nat.lt_succ_self (n + 1)) (Nat.le_add_right (n + 2) _)

/-- The sum of the old value and the delta is stored in the cell. -/
theorem runs_advanceStmts (config : Config) (counter : cells.lookup sym = some cell) {old value : Nat}
    {ty : IntTy} (oldBound : env.lookup (n + 1) = some (.int wide old))
    (ref : env.lookup n = some (.ref sym))
    (deltaBound : env.lookup (deltaValue wide parts (n + 2)) = some (.int ty value)) :
    Runs config env cells (advanceStmts wide parts n)
      ((sumValue wide parts n, .ofNat wide (old + value)) :: env)
      (cells.put sym { cell with
        value := truncate cell.elem.bits (truncate wide.bits (old + value)) }) := by
  have lhs : Stmt.int? ⟨.addi, [n + 1, deltaValue wide parts (n + 2)],
      [(sumValue wide parts n, .int wide)]⟩ env 0 = some (wide, old) := int?_of_bound rfl oldBound
  have rhs : Stmt.int? ⟨.addi, [n + 1, deltaValue wide parts (n + 2)],
      [(sumValue wide parts n, .int wide)]⟩ env 1 = some (ty, value) := int?_of_bound rfl deltaBound
  have add : Stmt.act? config ⟨.addi, [n + 1, deltaValue wide parts (n + 2)],
      [(sumValue wide parts n, .int wide)]⟩ env cells =
        some ([.ofNat wide (old + value)], cells) := by
    simp [Stmt.act?, Stmt.compute?, lhs, rhs, Stmt.types, Stmt.intResult?]
  have other : n ≠ sumValue wide parts n :=
    Nat.ne_of_lt (Nat.lt_trans (Nat.lt_succ_self n) (lt_sumValue wide parts n))
  have store : Stmt.act? config ⟨.store, [sumValue wide parts n, n], []⟩
      ((sumValue wide parts n, .ofNat wide (old + value)) :: env) cells =
        some ([], cells.put sym { cell with
          value := truncate cell.elem.bits (truncate wide.bits (old + value)) }) := by
    simp [Stmt.act?, Stmt.int?, Stmt.cell?, Stmt.operand?, Value.ofNat, List.lookup_cons,
      beq_false_of_ne other, ref, counter]
  exact .cons (by simp) add (.cons (by simp) store (.nil _ _ _))

/-- The three statements for one word. -/
theorem runs_wordStmts_single (config : Config) (cells : Table Cell) (word : IntTy) {old : ValueId}
    {value : Nat} (oldBound : env.lookup old = some (.int wide value)) {next : ValueId}
    (below : old < next) (index : Nat) :
    ∃ shifted, Runs config env cells
      [⟨.constant (truncate wide.bits (index * word.bits)), [], [(next, .int wide)]⟩,
        ⟨.shrui, [old, next], [(next + 1, .int wide)]⟩,
        ⟨.trunci, [next + 1], [(next + 2, .int word)]⟩]
      ((next + 2, .int word (wordAt wide word value index)) :: (next + 1, .int wide shifted) ::
        (next, .int wide (truncate wide.bits (index * word.bits))) :: env) cells := by
  let amount := truncate wide.bits (index * word.bits)
  let shifted := truncate wide.bits (if wide.bits ≤ amount then 0 else value >>> amount)
  have constant : Stmt.act? config ⟨.constant amount, [], [(next, .int wide)]⟩ env cells =
      some ([.int wide amount], cells) := by
    simp [Stmt.act?, Stmt.compute?, Stmt.types, Stmt.intResult?, Value.ofNat, amount]
  have oldInt : Stmt.int? ⟨.shrui, [old, next], [(next + 1, .int wide)]⟩
      ((next, .int wide amount) :: env) 0 = some (wide, value) := by
    refine int?_of_bound rfl ?_
    rw [List.lookup_cons, beq_false_of_ne (Nat.ne_of_lt below)]
    exact oldBound
  have amountInt : Stmt.int? ⟨.shrui, [old, next], [(next + 1, .int wide)]⟩
      ((next, .int wide amount) :: env) 1 = some (wide, amount) :=
    int?_of_bound rfl List.lookup_cons_self
  have shift : Stmt.act? config ⟨.shrui, [old, next], [(next + 1, .int wide)]⟩
      ((next, .int wide amount) :: env) cells = some ([.int wide shifted], cells) := by
    simp [Stmt.act?, Stmt.compute?, oldInt, amountInt, Stmt.types, Stmt.intResult?, Value.ofNat,
      shifted]
  have shiftedInt : Stmt.int? ⟨.trunci, [next + 1], [(next + 2, .int word)]⟩
      ((next + 1, .int wide shifted) :: (next, .int wide amount) :: env) 0 = some (wide, shifted) :=
    int?_of_bound rfl List.lookup_cons_self
  have cut : Stmt.act? config ⟨.trunci, [next + 1], [(next + 2, .int word)]⟩
      ((next + 1, .int wide shifted) :: (next, .int wide amount) :: env) cells =
        some ([.int word (wordAt wide word value index)], cells) := by
    simp [Stmt.act?, Stmt.compute?, shiftedInt, Stmt.types, Stmt.intResult?, Value.ofNat, wordAt,
      shifted, amount]
  exact ⟨shifted, .cons (by simp) constant (.cons (by simp) shift (.cons (by simp) cut (.nil _ _ _)))⟩

/-- One word is cut out of a value for each index. -/
theorem runs_wordStmts (config : Config) (cells : Table Cell) (word : IntTy) {old : ValueId}
    {value : Nat} (oldBound : env.lookup old = some (.int wide value)) (indices : List Nat)
    {next : ValueId} (below : old < next) :
    ∃ after, Runs config env cells (wordStmts wide word old indices next) after cells ∧
      SameBelow next env after ∧
      (wordValues indices next).map (after.lookup ·) =
        indices.map fun index => some (.int word (wordAt wide word value index)) := by
  induction indices generalizing env next with
  | nil => exact ⟨env, .nil _ _ _, .refl _ _, rfl⟩
  | cons index later ih =>
    obtain ⟨shifted, run⟩ := runs_wordStmts_single config cells word oldBound below index
    have here := (((SameBelow.refl next env).bind (Nat.le_refl next)
      (.int wide (truncate wide.bits (index * word.bits)))).bind (Nat.le_add_right next 1)
      (.int wide shifted)).bind (Nat.le_add_right next 2) (.int word (wordAt wide word value index))
    obtain ⟨after, runLater, same, words⟩ := ih ((here old below).trans oldBound)
      (Nat.lt_of_lt_of_le below (Nat.le_add_right next 3))
    refine ⟨after, run.append runLater, here.trans same (Nat.le_add_right next 3), ?_⟩
    rw [wordValues, List.map_cons, List.map_cons, words, same (next + 2) (Nat.lt_succ_self _),
      List.lookup_cons_self]

theorem mapM_of_map_some {α β : Type} {f : α → Option β} {items : List α} {values : List β}
    (each : items.map f = values.map some) : items.mapM f = some values := by
  induction items generalizing values with
  | nil =>
    cases values with
    | nil => rfl
    | cons value more => cases each
  | cons item rest ih =>
    cases values with
    | nil => cases each
    | cons value more =>
      obtain ⟨head, tail⟩ := List.cons.inj each
      rw [List.mapM_cons, head, ih tail]
      rfl

theorem mapM_int? {ty : IntTy} {words : List Nat}
    (bound : s.operands.map (env.lookup ·) = words.map fun word => some (.int ty word)) :
    (List.range s.operands.length).mapM (fun index => (s.int? env index).map (·.2)) =
      some words := by
  have length : s.operands.length = words.length := by simpa using congrArg List.length bound
  refine mapM_of_map_some (List.ext_getElem (by simp [length]) fun index left right => ?_)
  have inOperands : index < s.operands.length := by simpa using left
  have inWords : index < words.length := by simpa using right
  have value : env.lookup s.operands[index] = some (.int ty words[index]) := by
    have entry := congrArg (·[index]?) bound
    simpa [inOperands, inWords] using entry
  rw [List.getElem_map, List.getElem_map, List.getElem_range,
    int?_of_bound (List.getElem?_eq_getElem inOperands) value]
  rfl

/-- The words are packed into a tensor of the declared type. -/
theorem runs_packStmts (cells : Table Cell) (proper : Proper config.counterBits s r parts) {words : List Nat}
    (bound : (wordValues parts.indices (sumValue wide parts n + 1)).map (env.lookup ·) =
      words.map fun word => some (.int parts.word word))
    (count : words.length = parts.count)
    (fit : ∀ word ∈ words, word < bitLimit parts.elem.bits) :
    Runs config env cells (packStmts wide parts n)
      ((blockResult wide parts n, .tensor parts.resultTy words) ::
        (packedValue wide parts n, .tensor (.tensor parts.shape parts.word) words) :: env)
      cells := by
  have pack : Stmt.act? config ⟨.fromElements, wordValues parts.indices (sumValue wide parts n + 1),
      [(packedValue wide parts n, .tensor parts.shape parts.word)]⟩ env cells =
        some ([.tensor (.tensor parts.shape parts.word) words], cells) := by
    have elems := mapM_int? (s := ⟨.fromElements, wordValues parts.indices (sumValue wide parts n + 1),
      [(packedValue wide parts n, .tensor parts.shape parts.word)]⟩) bound
    simp [Stmt.act?, Stmt.compute?, Stmt.types, elems, proper.count_eq.1, count]
  have cutWords : words.map (truncate parts.elem.bits) = words := by
    have each : ∀ word ∈ words, truncate parts.elem.bits word = id word :=
      fun word mem => truncate_of_lt (fit word mem)
    rw [List.map_congr_left each, List.map_id]
  have castWords : Stmt.act? config ⟨.cast, [packedValue wide parts n],
      [(packedValue wide parts n + 1, parts.resultTy)]⟩
      ((packedValue wide parts n, .tensor (.tensor parts.shape parts.word) words) :: env) cells =
        some ([.tensor parts.resultTy words], cells) := by
    have castable : Stmt.castTo? parts.resultTy (.tensor (.tensor parts.shape parts.word) words) =
        some (.tensor parts.resultTy words) := by
      change (if words.length = (Ty.tensor parts.shape parts.elem).count then _ else _) = _
      rw [if_pos (count.trans (proper.count_eq.1 parts.elem).symm), cutWords]
    simp [Stmt.act?, Stmt.compute?, Stmt.types, Stmt.operand?, castable]
  exact .cons (by simp) pack (.cons (by simp) castWords (.nil _ _ _))

/-- The words of a counter, as a block computes them. -/
theorem wordAt_indices (valid : config.validate = .ok ())
    (proper : Proper config.counterBits s r parts) (value : Nat) :
    parts.indices.map (wordAt config.wide parts.word (truncate config.wide.bits value)) =
      chunks value parts.elem.bits parts.count := by
  refine List.map_congr_left fun index mem => ?_
  have small : index < parts.count := by simpa [Parts.indices] using mem
  refine wordAt_eq_chunk (Config.validate_eq_ok.mp valid).2.1.2 proper.elemValid ?_ value
  calc (index + 1) * parts.elem.bits
    _ ≤ parts.count * parts.elem.bits := Nat.mul_le_mul_right _ small
    _ ≤ config.counterBits := proper.count_eq.2

/-- The first half of a block loads the counter and advances it. -/
theorem runs_advance (config : Config) (counter : cells.lookup sym = some cell)
    (elem : cell.elem = wide) (below : parts.delta < n) {delta : Nat}
    (bound : env.lookup parts.delta = some (.int parts.deltaTy delta)) :
    ∃ after, Runs config env cells
        (accessStmts sym wide n ++ (deltaStmts wide parts (n + 2) ++ advanceStmts wide parts n)) after
        (cells.put sym (Evaluator.advance cell parts.deltaTy delta)) ∧
      SameBelow n env after ∧
      after.lookup (n + 1) = some (.int wide (truncate wide.bits cell.value)) := by
  let loaded : Env := (n + 1, .ofNat cell.elem cell.value) :: (n, .ref sym) :: env
  have sameLoaded : SameBelow n env loaded :=
    ((SameBelow.refl n env).bind (Nat.le_refl n) _).bind (Nat.le_succ n) _
  have oldBound : loaded.lookup (n + 1) = some (.int wide (truncate wide.bits cell.value)) := by
    rw [List.lookup_cons_self, Value.ofNat, elem]
  have refBound : loaded.lookup n = some (.ref sym) := by
    rw [List.lookup_cons, beq_false_of_ne (Nat.ne_of_lt (Nat.lt_succ_self n))]
    exact List.lookup_cons_self
  obtain ⟨widened, ty, value, runDelta, sameDelta, deltaBound, widens⟩ :=
    runs_deltaStmts config cells elem ((sameLoaded _ below).trans bound) (n + 2)
  have oldWidened := (sameDelta (n + 1) (Nat.lt_succ_self _)).trans oldBound
  have refWidened := (sameDelta n (Nat.lt_add_of_pos_right (by decide))).trans refBound
  have runAdvance := runs_advanceStmts config counter oldWidened refWidened deltaBound
  have advanced : { cell with value := truncate cell.elem.bits (truncate wide.bits
      (truncate wide.bits cell.value + value)) } = Evaluator.advance cell parts.deltaTy delta := by
    rw [Evaluator.advance, elem, truncate_truncate, truncate_truncate_add,
      ← truncate_add_truncate, widens, truncate_add_truncate]
  rw [advanced] at runAdvance
  refine ⟨_, (runs_accessStmts config counter wide n).append (runDelta.append runAdvance), ?_, ?_⟩
  · refine (sameLoaded.trans sameDelta (Nat.le_add_right n 2)).bind ?_ _
    exact Nat.le_of_lt (Nat.lt_trans (Nat.lt_succ_self n) (lt_sumValue wide parts n))
  · rw [List.lookup_cons, beq_false_of_ne (Nat.ne_of_lt (lt_sumValue wide parts n))]
    exact oldWidened

/-- The second half of a block packs the words of the old value. -/
theorem runs_words (cells : Table Cell) (valid : config.validate = .ok ())
    (proper : Proper config.counterBits s r parts) {value : Nat}
    (oldBound : env.lookup (n + 1) =
      some (.int config.wide (truncate config.wide.bits value))) :
    ∃ after, Runs config env cells
        (wordStmts config.wide parts.word (n + 1) parts.indices (sumValue config.wide parts n + 1) ++
          packStmts config.wide parts n) after cells ∧
      SameBelow n env after ∧
      after.lookup (blockResult config.wide parts n) =
        some (.tensor parts.resultTy (chunks value parts.elem.bits parts.count)) := by
  have early : n < sumValue config.wide parts n + 1 :=
    Nat.lt_succ_of_lt (Nat.lt_trans (Nat.lt_succ_self n) (lt_sumValue config.wide parts n))
  obtain ⟨cut, runWords, sameCut, bound⟩ := runs_wordStmts config cells parts.word oldBound
    parts.indices (Nat.lt_succ_of_lt (lt_sumValue config.wide parts n))
  have words : (wordValues parts.indices (sumValue config.wide parts n + 1)).map (cut.lookup ·) =
      (chunks value parts.elem.bits parts.count).map fun word => some (.int parts.word word) := by
    rw [bound, ← wordAt_indices valid proper value, List.map_map]
    rfl
  have fit : ∀ word ∈ chunks value parts.elem.bits parts.count, word < bitLimit parts.elem.bits := by
    intro word mem
    obtain ⟨index, -, rfl⟩ := List.mem_map.mp mem
    simp only [chunk]
    split
    · exact bitLimit_pos _
    · exact truncate_lt _ _
  refine ⟨_, runWords.append (runs_packStmts cells proper words (length_chunks _ _ _) fit), ?_,
    List.lookup_cons_self⟩
  have packed : n ≤ packedValue config.wide parts n :=
    Nat.le_trans (Nat.le_of_lt early) (Nat.le_add_right _ _)
  exact (((SameBelow.refl n env).trans sameCut (Nat.le_of_lt early)).bind packed _).bind
    (Nat.le_succ_of_le packed) _

/-- A block whose delta is an integer of its declared type advances the counter and gives its words. -/
theorem runs_block (valid : config.validate = .ok ())
    (proper : Proper config.counterBits s r parts)
    (counter : cells.lookup config.stateSymbol = some cell) (elem : cell.elem = config.wide)
    (below : parts.delta < n) {delta : Nat}
    (bound : env.lookup parts.delta = some (.int parts.deltaTy delta)) :
    ∃ after, Runs config env cells (block config.stateSymbol config.wide parts n) after
        (cells.put config.stateSymbol (Evaluator.advance cell parts.deltaTy delta)) ∧
      SameBelow n env after ∧
      after.lookup (blockResult config.wide parts n) =
        some (.tensor parts.resultTy (chunks cell.value parts.elem.bits parts.count)) := by
  obtain ⟨stored, runAdvance, sameStored, oldBound⟩ := runs_advance config counter elem below bound
  obtain ⟨packed, runWords, samePacked, result⟩ := runs_words
    (cells.put config.stateSymbol (Evaluator.advance cell parts.deltaTy delta)) valid proper oldBound
  refine ⟨packed, ?_, sameStored.trans samePacked (Nat.le_refl n), result⟩
  have run := runAdvance.append runWords
  simpa only [block, List.append_assoc] using run

theorem exec_deltaStmts_of_unbound
    (notInt : ∀ ty bits, env.lookup parts.delta ≠ some (.int ty bits)) (wide : IntTy) (n : ValueId)
    (rest : List Stmt) :
    exec config env (deltaStmts wide parts (n + 2) ++ (advanceStmts wide parts n ++ rest)) cells =
      (none, cells) := by
  unfold deltaStmts
  by_cases same : parts.deltaTy.bits = wide.bits
  · have rhs : Stmt.int? ⟨.addi, [n + 1, deltaValue wide parts (n + 2)],
        [(sumValue wide parts n, .int wide)]⟩ env 1 = none :=
      int?_of_unbound rfl (by rw [deltaValue, if_pos same]; exact notInt)
    rw [if_pos same]
    exact exec_of_act?_none (by simp) (by simp [Stmt.act?, Stmt.compute?, rhs]) _
  · rw [if_neg same]
    cases parts.deltaTy.isSigned with
    | true =>
      have int : Stmt.int? ⟨.extsi, [parts.delta], [(n + 2, .int wide)]⟩ env 0 = none :=
        int?_of_unbound rfl notInt
      exact exec_of_act?_none (by simp) (by simp [Stmt.act?, Stmt.compute?, int]) _
    | false =>
      have int : Stmt.int? ⟨.extui, [parts.delta], [(n + 2, .int wide)]⟩ env 0 = none :=
        int?_of_unbound rfl notInt
      exact exec_of_act?_none (by simp) (by simp [Stmt.act?, Stmt.compute?, int]) _

/-- A block whose delta is not an integer fails before it stores anything. -/
theorem exec_block_of_unbound (counter : cells.lookup sym = some cell) (below : parts.delta < n)
    (notInt : ∀ ty bits, env.lookup parts.delta ≠ some (.int ty bits)) (rest : List Stmt) :
    exec config env (block sym wide parts n ++ rest) cells = (none, cells) := by
  have sameLoaded : SameBelow n env ((n + 1, .ofNat cell.elem cell.value) :: (n, .ref sym) :: env) :=
    ((SameBelow.refl n env).bind (Nat.le_refl n) _).bind (Nat.le_succ n) _
  rw [block, List.append_assoc, runs_accessStmts config counter]
  simp only [List.append_assoc]
  refine exec_deltaStmts_of_unbound (fun ty bits => ?_) wide n _
  rw [sameLoaded _ below]
  exact notInt ty bits

end

end StateUpdate

end RngLowering
