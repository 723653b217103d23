import RngLowering.Program.Reader
import RngLowering.Proofs.Activations

set_option autoImplicit false

namespace RngLowering

section

variable {α : Type} {table : Table α} {sym : String}

/-- A name that is there gets its new entry in its old place. -/
theorem Table.put_of_some {old : α} (found : List.lookup sym table = some old) (entry : α) :
    ∃ front back, table = front ++ (sym, old) :: back ∧ sym ∉ front.map Prod.fst ∧
      table.put sym entry = front ++ (sym, entry) :: back := by
  induction table with
  | nil => cases found
  | cons head rest ih =>
    obtain ⟨other, here⟩ := head
    by_cases same : other = sym
    · subst same
      rw [List.lookup_cons_self] at found
      cases found
      exact ⟨[], rest, rfl, by simp, by simp [Table.put]⟩
    · rw [List.lookup_cons, beq_false_of_ne (Ne.symm same)] at found
      obtain ⟨front, back, rfl, fresh, put⟩ := ih found
      refine ⟨(other, here) :: front, back, rfl, ?_, ?_⟩
      · simp only [List.map_cons, List.mem_cons, not_or]
        exact ⟨Ne.symm same, fresh⟩
      · rw [Table.put, if_neg same, put, List.cons_append]

/-- A name that is not there comes last. -/
theorem Table.put_of_none (absent : List.lookup sym table = none) (entry : α) :
    sym ∉ table.map Prod.fst ∧ table.put sym entry = table ++ [(sym, entry)] := by
  induction table with
  | nil => exact ⟨by simp, rfl⟩
  | cons head rest ih =>
    obtain ⟨other, here⟩ := head
    by_cases same : other = sym
    · subst same
      rw [List.lookup_cons_self] at absent
      cases absent
    · rw [List.lookup_cons, beq_false_of_ne (Ne.symm same)] at absent
      obtain ⟨fresh, put⟩ := ih absent
      refine ⟨?_, ?_⟩
      · simp only [List.map_cons, List.mem_cons, not_or]
        exact ⟨Ne.symm same, fresh⟩
      · rw [Table.put, if_neg same, put, List.cons_append]

end

namespace Evaluator

/-- What an operation that succeeds may do to the table. -/
inductive Touches (ev : Evaluator) (env : Env) (op : Op) : Table Cell → Table Cell → Prop
  | nothing {cells : Table Cell} (quiet : op.kind ≠ .store ∧ op.kind ≠ .rngUpdate) :
      Touches ev env op cells cells
  /-- A store changes the value of the cell that it refers to. -/
  | store {sym : String} {front back : Table Cell} {cell : Cell} (value : Nat) (kind : op.kind = .store)
      (ref : cellOperand env op 1 = .ok sym) (first : sym ∉ front.map Prod.fst) :
      Touches ev env op (front ++ (sym, cell) :: back) (front ++ (sym, { cell with value }) :: back)
  /-- A state update changes the value of the counter. -/
  | advance {front back : Table Cell} {cell : Cell} (value : Nat) (kind : op.kind = .rngUpdate)
      (first : ev.config.stateSymbol ∉ front.map Prod.fst) :
      Touches ev env op (front ++ (ev.config.stateSymbol, cell) :: back)
        (front ++ (ev.config.stateSymbol, { cell with value }) :: back)
  /-- A state update makes the counter. -/
  | create {cells : Table Cell} (value : Nat) (kind : op.kind = .rngUpdate)
      (absent : ev.config.stateSymbol ∉ cells.map Prod.fst) :
      Touches ev env op cells
        (cells ++ [(ev.config.stateSymbol, ⟨.signless ev.config.counterBits, value⟩)])

section

variable {ev : Evaluator} {env : Env} {op : Op} {m after : Machine} {values : List Value}

theorem Effect.touches (effect : Effect ev env op m values after) :
    ev.Touches env op m.cells after.cells := by
  cases effect with
  | compute done => exact .nothing (quiet_of_pureStep? done)
  | access kind found => exact .nothing (by simp [kind])
  | load kind ref found => exact .nothing (by simp [kind])
  | @store ty value sym cell kind operand ref found =>
    obtain ⟨front, back, split, first, put⟩ := Table.put_of_some found
      { cell with value := truncate cell.elem.bits value }
    rw [Machine.putCell, put, split]
    exact .store _ kind ref first
  | @update deltaTy delta ty kind parts =>
    have touches : ∀ cell, counterCell ev.config m = cell →
        ev.Touches env op m.cells
          (m.cells.put ev.config.stateSymbol (Evaluator.advance cell deltaTy delta)) := by
      intro cell isCounter
      unfold counterCell at isCounter
      cases found : m.cell? ev.config.stateSymbol with
      | some old =>
        rw [found, Option.getD_some] at isCounter
        subst isCounter
        obtain ⟨front, back, split, first, put⟩ := Table.put_of_some found
          (Evaluator.advance old deltaTy delta)
        rw [put, split]
        exact .advance _ kind first
      | none =>
        rw [found, Option.getD_none] at isCounter
        subst isCounter
        obtain ⟨absent, put⟩ := Table.put_of_none found (Evaluator.advance
          ⟨.signless ev.config.counterBits, truncate ev.config.counterBits ev.config.seed⟩ deltaTy delta)
        rw [put]
        exact .create _ kind absent
    exact touches _ rfl

end

def shapes (cells : Table Cell) : List (String × IntTy) := cells.map fun entry => (entry.1, entry.2.elem)

theorem map_fst_shapes (cells : Table Cell) : (shapes cells).map Prod.fst = cells.map Prod.fst := by
  simp [shapes, Function.comp_def]

/-- Every cell is still there with its name and type, and no cell has come but the counter. -/
def Grows (config : Config) (before after : Table Cell) : Prop :=
  shapes after = shapes before ∨
    config.stateSymbol ∉ before.map Prod.fst ∧
      shapes after = shapes before ++ [(config.stateSymbol, .signless config.counterBits)]

/-- The answer of a call that starts like this on a machine. -/
structure Settles (ev : Evaluator) (m : Machine) (entered : Except EvalError Activation)
    (answer : Answer) : Prop where
  /-- A call that cannot start changes nothing. -/
  refused : ∀ reason, entered = .error reason → answer = .error reason m
  /-- A call that starts leaves the cells as the operations that it went past have left them, be it that it
  returns, fails or runs out of operations. -/
  ended : ∀ start, entered = .ok start → start.machine.cells = m.cells ∧
    ∃ last, Relation.ReflTransGen ev.Next start last ∧ ev.Ends last answer ∧
      (machineOf answer).cells = last.machine.cells
  grows : Grows ev.config m.cells (machineOf answer).cells

section

variable {ev : Evaluator} {config : Config} {before middle after : Table Cell}

theorem Grows.trans (first : Grows config before middle) (second : Grows config middle after) :
    Grows config before after := by
  rcases first with same | ⟨absent, same⟩ <;> rcases second with sameAgain | ⟨absentAgain, sameAgain⟩
  · exact .inl (sameAgain.trans same)
  · rw [← map_fst_shapes, same, map_fst_shapes] at absentAgain
    exact .inr ⟨absentAgain, by rw [sameAgain, same]⟩
  · exact .inr ⟨absent, sameAgain.trans same⟩
  · rw [← map_fst_shapes, same] at absentAgain
    simp at absentAgain

theorem Touches.grows {env : Env} {op : Op} (touches : ev.Touches env op before after) :
    Grows ev.config before after := by
  cases touches with
  | nothing quiet => exact .inl rfl
  | store value kind ref first => exact .inl (by simp [shapes])
  | advance value kind first => exact .inl (by simp [shapes])
  | create value kind absent => exact .inr ⟨absent, by simp [shapes]⟩

theorem Next.grows {a b : Activation} (next : ev.Next a b) :
    Grows ev.config a.machine.cells b.machine.cells := by
  cases next with
  | skip gone => exact .inl rfl
  | step found goesOn done => exact (effect_of_step done).touches.grows

theorem grows_of_steps {a b : Activation} (steps : Relation.ReflTransGen ev.Next a b) :
    Grows ev.config a.machine.cells b.machine.cells := by
  induction steps with
  | refl => exact .inl rfl
  | tail _ next ih => exact ih.trans next.grows

/-- What a call ends with leaves the cells alone. -/
theorem Ends.cells_eq {a : Activation} {answer : Answer} (ends : ev.Ends a answer) :
    (machineOf answer).cells = a.machine.cells := by
  cases ends with
  | finish => rfl
  | @ret env id left m op found isRet =>
    cases op.operands.mapM (fetch env) with
    | error reason => rfl
    | ok values => rfl
  | fail found goesOn fails =>
    rw [machineOf, eq_of_step_error fails]
    rfl

theorem settles_call (name : String) (args : List Value) (m : Machine) :
    ev.Settles m (ev.enter name args m) (ev.call name args m) := by
  cases entered : ev.enter name args m with
  | error reason =>
    have refused := call_of_enter_error entered
    refine ⟨fun other same => ?_, fun start started => (by cases started), ?_⟩
    · cases same
      exact refused
    · rw [refused]
      exact .inl rfl
  | ok start =>
    have cells : start.machine.cells = m.cells := by
      obtain ⟨op, -, isStart⟩ := bind_eq_ok.mp entered
      cases isStart
      rfl
    obtain ⟨last, steps, ends⟩ := exists_ends start.env start.left start.machine
    rw [← call_of_enter_ok entered] at ends
    refine ⟨fun reason refused => (by cases refused), fun other same => ?_, ?_⟩
    · cases same
      exact ⟨cells, last, steps, ends, ends.cells_eq⟩
    · rw [ends.cells_eq, ← cells]
      exact grows_of_steps steps

theorem settles_callInts (name : String) (args : List Nat) (m : Machine) :
    ev.Settles m (ev.enterInts name args m) (ev.callInts name args m) := by
  rcases callInts_cases name args m with ⟨reason, entered, answer⟩ | ⟨values, entered, answer⟩
  · rw [entered, answer]
    refine ⟨fun other same => ?_, fun start started => (by cases started), .inl rfl⟩
    cases same
    rfl
  · rw [entered, answer]
    exact settles_call name values m

end

/-- An operation that fails leaves the table of cells as it is, and one that succeeds changes at most the
value of the one cell that it is for. A call, whether it succeeds or not, leaves the table of the operations
before the one that it ends with; it removes no cell, changes no cell's type, and makes no other cell than
the counter. -/
theorem effects_confined (ev : Evaluator) (m : Machine) :
    (∀ env op reason after, ev.step env op m = .error reason after → after.cells = m.cells) ∧
    (∀ env op values after, ev.step env op m = .ok values after →
      ev.Touches env op m.cells after.cells) ∧
    (∀ name args, ev.Settles m (ev.enter name args m) (ev.call name args m)) ∧
    ∀ name args, ev.Settles m (ev.enterInts name args m) (ev.callInts name args m) := by
  refine ⟨fun env op reason after fails => ?_, fun env op values after done => ?_,
    fun name args => settles_call name args m, fun name args => settles_callInts name args m⟩
  · rw [eq_of_step_error fails]
  · exact (effect_of_step done).touches

/-- The last operation of the call fails, after a store and the first state update. A store by itself, and
one without operands. -/
theorem effects_confined_failing :
    ∃ p, Program.ofText "in" "memref.global @t : memref<i8>
      func.func @f(%d: i8) \x7b
      %c = memref.get_global @t : memref<i8>
      memref.store %d, %c
      %a = mhlo.rng_get_and_update_state %d : tensor<2xi4>
      test.stop\x7d" = .ok p ∧
      let ev : Evaluator := ⟨p, ⟨"s", 8, 200, .full⟩⟩
      let env : Env := [(0, .int (.signless 8) 5), (1, .ref "t")]
      (∃ start last answer, ev.enterInts "f" [5] (Machine.ofProgram p) = .ok start ∧
        Relation.ReflTransGen ev.Next start last ∧ ev.Ends last answer ∧
        outcome answer = (none, [("t", ⟨.signless 8, 5⟩), ("s", ⟨.signless 8, 205⟩)]) ∧
        (machineOf answer).cells = last.machine.cells ∧
        Grows ⟨"s", 8, 200, .full⟩ (Machine.ofProgram p).cells (machineOf answer).cells) ∧
      (∃ values after, ev.step env { kind := .store, operands := [0, 1] } (Machine.ofProgram p) =
          .ok values after ∧
        ev.Touches env { kind := .store, operands := [0, 1] } (Machine.ofProgram p).cells after.cells) ∧
      ∃ reason after, ev.step env { kind := .store } (Machine.ofProgram p) = .error reason after ∧
        after.cells = (Machine.ofProgram p).cells := by
  obtain ⟨p, read, cells, entered, ends⟩ : ∃ p, Program.ofText "in" "memref.global @t : memref<i8>
      func.func @f(%d: i8) \x7b
      %c = memref.get_global @t : memref<i8>
      memref.store %d, %c
      %a = mhlo.rng_get_and_update_state %d : tensor<2xi4>
      test.stop\x7d" = .ok p ∧
      (Machine.ofProgram p).cells = [("t", ⟨.signless 8, 0⟩)] ∧
      (enterInts ⟨p, ⟨"s", 8, 200, .full⟩⟩ "f" [5] (Machine.ofProgram p)).isOk = true ∧
      outcome (callInts ⟨p, ⟨"s", 8, 200, .full⟩⟩ "f" [5] (Machine.ofProgram p)) =
        (none, [("t", ⟨.signless 8, 5⟩), ("s", ⟨.signless 8, 205⟩)]) := by
    apply Program.exists_of_chars
    decide +kernel
  obtain ⟨start, entered⟩ := exists_eq_ok entered
  obtain ⟨onError, onOk, -, calls⟩ :=
    effects_confined ⟨p, ⟨"s", 8, 200, .full⟩⟩ (Machine.ofProgram p)
  have settles := calls "f" [5]
  obtain ⟨-, last, steps, isEnd, left⟩ := settles.ended start entered
  refine ⟨p, read, ⟨start, last, _, entered, steps, isEnd, ends, left, settles.grows⟩, ?_, ?_⟩
  · have found : (Machine.ofProgram p).cell? "t" = some ⟨.signless 8, 0⟩ := by
      rw [Machine.cell?, cells]
      rfl
    have done : step ⟨p, ⟨"s", 8, 200, .full⟩⟩ [(0, .int (.signless 8) 5), (1, .ref "t")]
        { kind := .store, operands := [0, 1] } (Machine.ofProgram p) =
        .ok [] ((Machine.ofProgram p).putCell "t" ⟨.signless 8, 5⟩) := by
      change (setGlobal "t" 5 >>= fun _ => pure []) (Machine.ofProgram p) = _
      rw [bind_of_ok (by rw [setGlobal_eq, found])]
      rfl
    exact ⟨_, _, done, onOk _ _ _ _ done⟩
  · have fails : step ⟨p, ⟨"s", 8, 200, .full⟩⟩ [(0, .int (.signless 8) 5), (1, .ref "t")]
        { kind := .store } (Machine.ofProgram p) =
        .error (.unsupported "memref.store" none) (Machine.ofProgram p) := rfl
    exact ⟨_, _, fails, onError _ _ _ _ fails⟩

end Evaluator

end RngLowering
