import Mathlib.Logic.Relation
import RngLowering.Proofs.Blocks

set_option autoImplicit false

namespace RngLowering

/-- The point of a builder, with the operations after it in its region. -/
def Builder.On (b : Builder) (c : Cursor) (back : List OpId) : Prop :=
  ∃ front, b.program.At c b.parent front back ∧ b.index = front.length

/-- What was built are the given statements, and nothing else has changed. -/
structure Builder.Emits (config : Config) (b : Builder) (c : Cursor) (back : List OpId)
    (stmts : List Stmt) (after : Builder) : Prop where
  on : after.On (c.insert stmts) back
  keeps : b.program.Keeps config after.program []
  types : after.program.Types (stmts.flatMap Stmt.results)
  values : after.program.values.size = b.program.values.size + (stmts.flatMap Stmt.defs).length

/-- An operation of a block is legal and plain, and defines no symbol. -/
structure OpKind.IsStep (kind : OpKind) : Prop where
  plain : kind.isFunc = false
  legal : kind.Legal
  silent : kind.definesSymbol = false

theorem OpKind.IsStep.of_pure {kind : OpKind} (isPure : kind.hasSideEffects = false)
    (silent : kind.definesSymbol = false) : kind.IsStep := by
  have constant : Lowering.target.legality "arith.constant" = .legal := by decide
  have getGlobal : Lowering.target.legality "memref.get_global" = .legal := by decide
  cases kind with
  | constant value => exact ⟨rfl, constant, rfl⟩
  | getGlobal sym => exact ⟨rfl, getGlobal, rfl⟩
  | global cell => cases silent
  | func sym => cases silent
  | store => cases isPure
  | ret => cases isPure
  | rngUpdate => cases isPure
  | foreign name sym attrs => cases isPure
  | _ => exact ⟨rfl, by decide, rfl⟩

theorem OpKind.isStep_store : OpKind.store.IsStep := ⟨rfl, by decide, rfl⟩

namespace Builder.Emits

variable {config : Config} {b middle after : Builder} {c : Cursor} {back : List OpId}
  {first second : List Stmt}

theorem nil (on : b.On c back) : b.Emits config c back [] b where
  on := by simpa using on
  keeps := .refl config b.program
  types := by
    intro v ty mem
    cases mem
  values := rfl

theorem trans (emits : b.Emits config c back first middle)
    (more : middle.Emits config (c.insert first) back second after) :
    b.Emits config c back (first ++ second) after where
  on := by
    rw [Cursor.insert_append]
    exact more.on
  keeps := emits.keeps.trans more.keeps
  types v ty mem := by
    rw [List.flatMap_append, List.mem_append] at mem
    rcases mem with early | late
    · exact more.keeps.types v ty (emits.types v ty early)
    · exact more.types v ty late
  values := by
    rw [more.values, emits.values, List.flatMap_append, List.length_append, Nat.add_assoc]

end Builder.Emits

section

variable {b : Builder} {c : Cursor} {back : List OpId}

theorem Builder.On.isOpen (on : b.On c back) : b.Open b.program.values.size := by
  obtain ⟨front, point, -⟩ := on
  exact ⟨⟨_, point.region⟩, rfl⟩

theorem Builder.emits_put_one (config : Config) (on : b.On c back) {s : Stmt}
    (isStep : s.kind.IsStep) (numbered : NumberedFrom b.program.values.size s.defs) :
    b.Emits config c back [s] (b.put [s]) := by
  obtain ⟨front, point, index⟩ := on
  have inserted := point.inserted isStep.plain s.operands b.loc s.types
  have edit := Program.splices_inserted point.region
    { kind := s.kind, operands := s.operands, loc := b.loc } s.types
  rw [Program.nextStmt_eq numbered] at inserted
  rw [← index] at inserted edit
  refine ⟨⟨front ++ [b.program.ops.size], inserted, by simp [put, index]⟩, ?_, ?_, ?_⟩
  · refine edit.keeps point.represents inserted.represents (by simp) fun id mem op found => ?_
    rw [List.mem_singleton.mp mem, Program.op?_inserted_new point.region] at found
    cases found
    refine ⟨rfl, isStep.legal, fun sym defines => ?_⟩
    simp [OpKind.defines, Program.nextStmt, isStep.silent] at defines
  · exact Program.types_place (by simpa using numbered)
  · exact Program.size_values_place

/-- Statements built at a point are there. -/
theorem Builder.emits_put (config : Config) (on : b.On c back) {stmts : List Stmt}
    (steps : ∀ s ∈ stmts, s.kind.IsStep)
    (numbered : NumberedFrom b.program.values.size (stmts.flatMap Stmt.defs)) :
    b.Emits config c back stmts (b.put stmts) := by
  induction stmts generalizing b c with
  | nil =>
    rw [put_nil]
    exact .nil on
  | cons s rest ih =>
    rw [List.flatMap_cons, NumberedFrom.append_iff] at numbered
    have first := emits_put_one config on (steps s List.mem_cons_self) numbered.1
    have size : (b.put [s]).program.values.size = b.program.values.size + s.defs.length := by
      rw [first.values, List.flatMap_singleton]
    have more := ih first.on (fun other mem => steps other (List.mem_cons_of_mem s mem))
      (by rw [size]; exact numbered.2)
    rw [put_put] at more
    exact first.trans more

end

namespace StateUpdate

theorem kind_of_mem_wordStmts {wide word : IntTy} {old next : ValueId} {indices : List Nat} {s : Stmt}
    (mem : s ∈ wordStmts wide word old indices next) :
    (∃ value, s.kind = .constant value) ∨ s.kind = .shrui ∨ s.kind = .trunci := by
  induction indices generalizing next with
  | nil => cases mem
  | cons index rest ih =>
    rw [wordStmts, List.mem_append] at mem
    rcases mem with here | later
    · simp only [List.mem_cons, List.not_mem_nil, or_false] at here
      rcases here with rfl | rfl | rfl
      · exact Or.inl ⟨_, rfl⟩
      · exact Or.inr (Or.inl rfl)
      · exact Or.inr (Or.inr rfl)
    · exact ih later

theorem kind_of_mem_deltaStmts {wide : IntTy} {parts : Parts} {next : ValueId} {s : Stmt}
    (mem : s ∈ deltaStmts wide parts next) : s.kind = .extsi ∨ s.kind = .extui := by
  unfold deltaStmts at mem
  split at mem
  · cases mem
  · split at mem
    · cases List.mem_singleton.mp mem
      exact Or.inl rfl
    · cases List.mem_singleton.mp mem
      exact Or.inr rfl

/-- What is emitted for a state update is legal and plain, and defines no symbol. -/
theorem isStep_block {sym : String} {wide : IntTy} {parts : Parts} {n : ValueId} {s : Stmt}
    (mem : s ∈ block sym wide parts n) : s.kind.IsStep := by
  simp only [block, accessStmts, advanceStmts, packStmts, List.mem_append, List.mem_cons,
    List.not_mem_nil, or_false] at mem
  rcases mem with (rfl | rfl) | delta | (rfl | rfl) | words | rfl | rfl
  · exact .of_pure rfl rfl
  · exact .of_pure rfl rfl
  · rcases kind_of_mem_deltaStmts delta with kind | kind <;> rw [kind] <;> exact .of_pure rfl rfl
  · exact .of_pure rfl rfl
  · exact OpKind.isStep_store
  · rcases kind_of_mem_wordStmts words with ⟨value, kind⟩ | kind | kind <;> rw [kind] <;>
      exact .of_pure rfl rfl
  · exact .of_pure rfl rfl
  · exact .of_pure rfl rfl

theorem single_ok {op : Op} {values : List ValueId} {fault : Nat → Fault} {v : ValueId}
    (passed : inspect.single op values fault = .ok v) : values = [v] := by
  unfold inspect.single at passed
  split at passed
  · cases passed
    rfl
  · cases passed

theorem checked_ok {α : Type} {op : Op} {outcome : Except Fault α} {a : α}
    (passed : inspect.checked op outcome = .ok a) : outcome = .ok a := by
  cases outcome with
  | error fault => cases passed
  | ok b =>
    cases passed
    rfl

theorem ir_ok {α : Type} {outcome : Except IrError α} {a : α}
    (passed : inspect.ir outcome = .ok a) : outcome = .ok a := by
  cases outcome with
  | error reason => cases passed
  | ok b =>
    cases passed
    rfl

theorem inspectDelta_ok {counterBits : Nat} {ty : Ty} {deltaTy : IntTy}
    (passed : inspectDelta counterBits ty = .ok deltaTy) :
    ty = .int deltaTy ∧ deltaTy.isValid = true ∧ deltaTy.bits ≤ counterBits := by
  unfold inspectDelta at passed
  split at passed
  · split at passed
    · cases passed
    · rename_i valid
      split at passed
      · cases passed
      · rename_i narrow
        cases passed
        exact ⟨rfl, by simpa using valid, Nat.le_of_not_lt narrow⟩
  · cases passed

theorem inspectResult_ok {ty : Ty} {shape : List Nat} {elem : IntTy}
    (passed : inspectResult ty = .ok (shape, elem)) :
    ty = .tensor shape elem ∧ elem.isValid = true := by
  unfold inspectResult at passed
  split at passed
  · split at passed
    · rename_i valid
      cases passed
      exact ⟨rfl, valid⟩
    · cases passed
  · cases passed

/-- What an operation that passes inspection is like. -/
theorem inspect_ok {counterBits : Nat} {p : Program} {id : OpId} {op : Op} {parts : Parts}
    (found : p.op? id = some op) (passed : inspect counterBits p id = .ok parts) :
    op.operands = [parts.delta] ∧ p.typeOf parts.delta = .ok (.int parts.deltaTy) ∧
      parts.deltaTy.isValid = true ∧ parts.deltaTy.bits ≤ counterBits ∧
      parts.elem.isValid = true ∧ fits parts.resultTy counterBits = true ∧
      ∃ r, op.results = [r] ∧ p.typeOf r = .ok parts.resultTy := by
  simp only [inspect, found] at passed
  obtain ⟨delta, isDelta, passed⟩ := bind_eq_ok.1 passed
  obtain ⟨result, isResult, passed⟩ := bind_eq_ok.1 passed
  obtain ⟨ty, deltaTyped, passed⟩ := bind_eq_ok.1 passed
  obtain ⟨deltaTy, deltaPassed, passed⟩ := bind_eq_ok.1 passed
  obtain ⟨resultTy, resultTyped, passed⟩ := bind_eq_ok.1 passed
  obtain ⟨⟨shape, elem⟩, resultPassed, passed⟩ := bind_eq_ok.1 passed
  obtain ⟨rfl, deltaValid, deltaFits⟩ := inspectDelta_ok (checked_ok deltaPassed)
  obtain ⟨rfl, elemValid⟩ := inspectResult_ok (checked_ok resultPassed)
  split at passed
  · rename_i fits
    cases passed
    exact ⟨single_ok isDelta, ir_ok deltaTyped, deltaValid, deltaFits, elemValid, fits, result,
      single_ok isResult, ir_ok resultTyped⟩
  · cases passed

theorem proper_of_inspect {counterBits : Nat} {p q : Program} {parent : Option OpId} {id : OpId}
    {op : Op} {s : Stmt} {parts : Parts} (found : p.op? id = some op) (kind : op.kind = .rngUpdate)
    (passed : inspect counterBits p id = .ok parts) (holds : q.HoldsStmt parent id s)
    (same : q.op? id = some op) (types : ∀ v ty, p.typeOf v = .ok ty → q.typeOf v = .ok ty) :
    ∃ r, Proper counterBits s r parts := by
  obtain ⟨operands, -, deltaValid, deltaFits, elemValid, fits, r, results, typed⟩ :=
    inspect_ok found passed
  obtain ⟨loc, here⟩ := holds.op
  rw [same] at here
  cases here
  refine ⟨r, kind, operands, ?_, deltaValid, deltaFits, elemValid, fits⟩
  have defs : s.results.map Prod.fst = [r] := results
  obtain ⟨⟨v, ty⟩, single, isResult⟩ := List.map_eq_singleton_iff.mp defs
  have declared := holds.types v ty (by simp [single])
  cases isResult
  rw [types v _ typed] at declared
  cases declared
  exact single

end StateUpdate

/-- The first definition of a symbol, in a program and in its outline. -/
theorem Program.lookupSymbol?_cases {p : Program} {o : Outline} (rep : p.Represents o)
    (sym : String) :
    p.lookupSymbol? sym = none ∧ (o.find? fun item => item.kind.defines sym) = none ∨
      ∃ id op item, p.lookupSymbol? sym = some id ∧ p.op? id = some op ∧
        (o.find? fun item => item.kind.defines sym) = some item ∧ item.kind = op.kind := by
  rcases forall₂_find? rep.items (fun id item holds => holds.any_kind (·.defines sym)) with
    undefined | ⟨id, item, found, outlineFound, holds⟩
  · exact Or.inl undefined
  · obtain ⟨op, foundOp⟩ := holds.exists_op
    have kind := holds.kind
    rw [foundOp] at kind
    exact Or.inr ⟨id, op, item, found, foundOp, outlineFound, (Option.some.inj kind).symm⟩

namespace Counter

variable {config : Config} {p : Program} {o : Outline}

theorem isCell_counterStmt (config : Config) :
    isCell config.counterStmt.kind config.counterBits = true := by
  simp [Config.counterStmt, isCell]

theorem defines_counterStmt (config : Config) :
    config.counterStmt.kind.defines config.stateSymbol = true := by
  simp [Config.counterStmt, OpKind.defines, OpKind.definesSymbol, OpKind.symbol?]

/-- A state update that is not refused finds its counter, or creates it. -/
theorem getOrCreate_run {id : OpId} (accepted : StateUpdate.refusal? config p id = none) :
    ∃ counter event, getOrCreate id config.stateSymbol config.counterBits config.seed p =
        .ok (counter, event) (p.withCounter config ((p.op? id).bind (·.loc))) ∧
      counter.sym = config.stateSymbol ∧ counter.ty = .memref config.wide := by
  unfold getOrCreate
  rw [get_bind]
  cases defined : p.lookupSymbol? config.stateSymbol with
  | none =>
    have missing : find? p id config.stateSymbol config.counterBits = none := by
      simp [find?, defined]
    have created : create id config.stateSymbol config.counterBits config.seed p =
        .ok ⟨config.stateSymbol, cellTy config.counterBits, p.ops.size⟩
          (p.place none ((p.op? id).bind (·.loc)) 0 [config.counterStmt]) := rfl
    simp only [missing]
    rw [bind_of_ok created, Program.withCounter_of_none defined]
    exact ⟨_, _, rfl, rfl, rfl⟩
  | some d =>
    obtain ⟨op, found, -⟩ := Program.op?_of_lookupSymbol? defined
    have suits := (StateUpdate.refusal?_eq_none accepted).2 d op defined found
    have counter : find? p id config.stateSymbol config.counterBits =
        some (.ok ⟨config.stateSymbol, cellTy config.counterBits, d⟩) := by
      simp [find?, defined, found, suits]
    simp only [counter]
    rw [Program.withCounter_of_some defined]
    exact ⟨_, _, rfl, rfl, rfl⟩

/-- A counter that is created is the first item. -/
theorem represents_place (rep : p.Represents o)
    (undefined : p.lookupSymbol? config.stateSymbol = none) (loc : Option Loc) :
    (p.place none loc 0 [config.counterStmt]).Represents (.op config.counterStmt :: o) ∧
      p.Keeps config (p.place none loc 0 [config.counterStmt]) [] := by
  have legal : Lowering.target.legality "memref.global" = .legal := by decide
  have point : p.At (.top [] o) none [] p.body := .top rfl rep.nodup .nil rep.items
  have plain : config.counterStmt.kind.isFunc = false := rfl
  have inserted := point.inserted plain [] loc []
  have edit := Program.splices_inserted point.region
    { kind := config.counterStmt.kind, operands := [], loc } []
  refine ⟨inserted.represents, edit.keeps rep inserted.represents (by simp) fun id mem op found => ?_⟩
  rw [List.mem_singleton.mp mem, Program.op?_inserted_new point.region] at found
  cases found
  refine ⟨rfl, legal, fun sym defines => ?_⟩
  have same : config.stateSymbol = sym := by
    simpa [OpKind.defines, Program.nextStmt, Config.counterStmt, OpKind.definesSymbol,
      OpKind.symbol?] using defines
  exact ⟨same ▸ undefined, fun _ => isCell_counterStmt config⟩

/-- The program with its counter, and its outline. -/
theorem represents_withCounter (rep : p.Represents o) {id : OpId}
    (accepted : StateUpdate.refusal? config p id = none) (loc : Option Loc) :
    ∃ after, (p.withCounter config loc).Represents after ∧
      Relation.ReflTransGen (Outline.Step config) o after ∧
      p.Keeps config (p.withCounter config loc) [] ∧
      ((after.find? fun item => item.kind.defines config.stateSymbol).any
        fun item => isCell item.kind config.counterBits) = true := by
  rcases Program.lookupSymbol?_cases rep config.stateSymbol with ⟨undefined, outlineNone⟩ |
    ⟨d, op, item, found, foundOp, outlineFound, kind⟩
  · obtain ⟨represents, keeps⟩ := represents_place rep undefined loc
    rw [Program.withCounter_of_none undefined]
    refine ⟨_, represents, .single (.create fun item mem => ?_), keeps, ?_⟩
    · simpa using List.find?_eq_none.mp outlineNone item mem
    · rw [List.find?_cons_of_pos (by exact defines_counterStmt config), Option.any_some]
      exact isCell_counterStmt config
  · rw [Program.withCounter_of_some found]
    refine ⟨o, rep, .refl, .refl config p, ?_⟩
    rw [outlineFound, Option.any_some, kind]
    exact (StateUpdate.refusal?_eq_none accepted).2 d op found foundOp

end Counter

section

variable {config : Config} {p : Program} {o : Outline} {c : Cursor} {s : Stmt} {id : OpId}
  {parent : Option OpId} {front back : List OpId}

theorem idxOf?_append_cons {front back : List OpId} {id : OpId} (outside : id ∉ front) :
    (front ++ id :: back).idxOf? id = some front.length := by
  induction front with
  | nil => simp [List.idxOf?_cons]
  | cons head rest ih =>
    rw [List.mem_cons, not_or] at outside
    have other : (head == id) = false := beq_false_of_ne (Ne.symm outside.1)
    simp [List.idxOf?_cons, other, ih outside.2]

theorem Builder.before_eq (point : p.At (c.ahead [s]) parent front (id :: back)) :
    ∃ b, Builder.before p id = .ok b ∧ b.program = p ∧ b.On (c.ahead [s]) (id :: back) := by
  obtain ⟨loc, found⟩ := point.holdsStmt.op
  have outside : id ∉ front := fun mem =>
    (List.nodup_append.mp point.nodup).2.2 id mem id (by simp) rfl
  have position : p.position? id = some (parent, front.length) := by
    simp [Program.position?, found, point.region, idxOf?_append_cons outside]
  exact ⟨_, by simp only [Builder.before, position]; rfl, rfl, front, point, rfl⟩

/-- A state update can be replaced by a value of its type. -/
theorem Program.replace_eq (config : Config) (point : p.At (c.ahead [s]) parent front (id :: back))
    (silent : s.kind.definesSymbol = false) {r v : ValueId} (result : s.defs = [r]) {ty : Ty}
    (oldTyped : p.typeOf r = .ok ty) (newTyped : p.typeOf v = .ok ty) :
    ∃ q, p.replace id [v] = .ok q ∧ q.At (c.rewire (swap r v)) parent front back ∧
      p.Keeps config q [id] := by
  obtain ⟨loc, found⟩ := point.holdsStmt.op
  have rewired := point.rewire r v
  rw [Cursor.rewire_ahead] at rewired
  obtain ⟨op, q, erased, edit, after⟩ := rewired.erase
  obtain ⟨place, foundRewired⟩ := rewired.holdsStmt.op
  refine ⟨q, ?_, after, ?_⟩
  · simp only [Program.replace, found, Stmt.results_toOp, result, List.zip_cons_cons,
      List.zip_nil_right, List.foldl_cons, List.foldl_nil, erased]
    rfl
  · refine (keeps_replaceUses oldTyped newTyped).trans
      (edit.keeps rewired.represents after.represents (fun other mem => ?_) (by simp))
    rw [List.mem_singleton.mp mem]
    exact ⟨_, foundRewired, rfl, silent⟩

namespace StateUpdate

theorem isStateUpdate_iff :
    isStateUpdate p id = true ↔ ∃ op, p.op? id = some op ∧ op.kind = .rngUpdate := by
  unfold isStateUpdate
  cases p.op? id <;> simp

/-- A state update that is refused is left alone. -/
theorem expand_of_refusal {reason : ConvertError} (refused : refusal? config p id = some reason) :
    expand config id p = .error reason p := by
  unfold expand
  rw [get_bind]
  unfold refusal? at refused
  cases passed : inspect config.counterBits p id with
  | error other =>
    rw [passed] at refused
    cases refused
    rfl
  | ok parts =>
    simp only [passed, Option.bind_eq_bind, Option.bind_eq_some_iff] at refused
    obtain ⟨d, found, op, foundOp, refused⟩ := refused
    split at refused
    · cases refused
    · rename_i other
      cases refused
      refine bind_of_error ?_
      unfold Counter.getOrCreate
      rw [get_bind]
      simp only [Counter.find?, found, Option.map_some, foundOp, if_neg other]
      rfl

theorem refusal?_of_expand {events : List Event} {q : Program}
    (done : expand config id p = .ok events q) : refusal? config p id = none := by
  cases refused : refusal? config p id with
  | none => rfl
  | some reason =>
    rw [expand_of_refusal refused] at done
    cases done

/-- The steps of an expansion. -/
theorem expand_run {parts : Parts} {counter : Counter} {event : Event} {p₁ q : Program}
    {b b' : Builder} {v : ValueId} (passed : inspect config.counterBits p id = .ok parts)
    (got : Counter.getOrCreate id config.stateSymbol config.counterBits config.seed p =
      .ok (counter, event) p₁)
    (before : Builder.before p₁ id = .ok b) (emitted : emit counter parts b = .ok v b')
    (replaced : b'.program.replace id [v] = .ok q) : expand config id p = .ok [event] q := by
  have built : Edit.buildBefore id (emit counter parts) p₁ = .ok v b'.program := by
    unfold Edit.buildBefore
    rw [get_bind, before]
    change Edit.build b (emit counter parts) p₁ = _
    simp only [Edit.build, emitted]
  have swapped : Edit.replace id [v] b'.program = .ok () q := by
    unfold Edit.replace
    rw [get_bind, replaced]
    rfl
  unfold expand
  rw [get_bind]
  simp only [passed]
  rw [bind_of_ok got, bind_of_ok built, bind_of_ok swapped]
  rfl

/-- A state update that is not refused is expanded. -/
theorem expand_eq (rep : p.Represents o) (mem : id ∈ p.walk) (isUpdate : isStateUpdate p id = true)
    (accepted : refusal? config p id = none) :
    ∃ events q after, expand config id p = .ok events q ∧ q.Represents after ∧
      Relation.ReflTransGen (Outline.Step config) o after ∧ p.Keeps config q [id] := by
  obtain ⟨⟨parts, passed⟩, -⟩ := refusal?_eq_none accepted
  obtain ⟨op, found, kind⟩ := isStateUpdate_iff.mp isUpdate
  obtain ⟨counter, event, got, sym, cellTy⟩ := Counter.getOrCreate_run accepted
  obtain ⟨o₁, rep₁, created, keeps₁, present⟩ := Counter.represents_withCounter rep accepted
    ((p.op? id).bind (·.loc))
  have found₁ := Program.op?_withCounter config ((p.op? id).bind (·.loc)) found
  generalize p.withCounter config ((p.op? id).bind (·.loc)) = p₁ at got rep₁ keeps₁ found₁
  obtain ⟨c, s, parent, front, back, point, rfl⟩ := Program.exists_at rep₁
    (keeps₁.walk id mem (by simp)) found₁ (by rw [kind]; rfl)
  obtain ⟨r, proper⟩ := proper_of_inspect found kind passed point.holdsStmt found₁ keeps₁.types
  obtain ⟨b, before, rfl, on⟩ := Builder.before_eq point
  have emitted := emit_eq on.isOpen cellTy parts
  have emits := Builder.emits_put config on (fun s => isStep_block)
    (numbered_block counter.sym config.wide parts b.program.values.size)
  generalize b.put _ = b' at emitted emits
  obtain ⟨front', point', -⟩ := emits.on
  rw [Cursor.insert_ahead] at point'
  have oldTyped : b'.program.typeOf r = .ok parts.resultTy := emits.keeps.types r _
    (point.holdsStmt.types r _ (by simp [proper.results]))
  have newTyped : b'.program.typeOf (blockResult config.wide parts b.program.values.size) =
      .ok parts.resultTy := emits.types _ _ (by simp [block, packStmts, blockResult])
  obtain ⟨q, replaced, point'', keeps₂⟩ := Program.replace_eq config point' (by rw [proper.kind]; rfl)
    proper.defs oldTyped newTyped
  refine ⟨[event], q, _, expand_run passed got before emitted replaced, point''.represents, ?_,
    keeps₁.trans (emits.keeps.trans keeps₂)⟩
  rw [Cursor.outline_rewire, Cursor.outline_insert, sym]
  refine created.tail (.expand ⟨proper, fun ty declared => ?_, present, fun v => rep₁.lt_of_mem_defs⟩)
  have typed := keeps₁.types _ _ (inspect_ok found passed).2.1
  rw [rep₁.types _ _ declared] at typed
  exact Except.ok.inj typed

end StateUpdate

end

end RngLowering
