import RngLowering.Proofs.CellEffects
import RngLowering.Proofs.CounterRuns

set_option autoImplicit false

namespace RngLowering

/-- An integer within its width, or a tensor with all its elements. -/
def Value.Fits : Value → Prop
  | .int ty bits => bits < 2 ^ ty.bits
  | .tensor ty elems => elems.length = ty.count
  | .ref _ => True

def Value.ElemsFit : Value → Prop
  | .tensor ty elems => ∀ x ∈ elems, x < 2 ^ ty.width
  | _ => True

def Cell.Fits (cell : Cell) : Prop := cell.value < 2 ^ cell.elem.bits

def Table.AllFit (cells : Table Cell) : Prop := ∀ sym cell, (sym, cell) ∈ cells → cell.Fits

structure Activation.Fits (a : Activation) : Prop where
  env : ∀ v value, (v, value) ∈ a.env → value.Fits
  cells : Table.AllFit a.machine.cells

theorem bitLimit_le_two_pow (bits : Nat) : bitLimit bits ≤ 2 ^ bits :=
  Nat.pow_le_pow_right (by decide) (Nat.min_le_left _ _)

theorem truncate_lt_two_pow (bits value : Nat) : truncate bits value < 2 ^ bits :=
  Nat.lt_of_lt_of_le (truncate_lt bits value) (bitLimit_le_two_pow bits)

theorem chunk_lt_two_pow (value width index : Nat) : chunk value width index < 2 ^ width := by
  unfold chunk
  dsimp only
  split
  · exact Nat.two_pow_pos width
  · exact truncate_lt_two_pow width _

theorem Value.fits_ofNat (ty : IntTy) (bits : Nat) : (Value.ofNat ty bits).Fits :=
  truncate_lt_two_pow ty.bits bits

theorem Table.mem_put {table : Table Cell} {sym other : String} {cell entry : Cell}
    (mem : (other, entry) ∈ table.put sym cell) : entry = cell ∨ (other, entry) ∈ table := by
  cases found : List.lookup sym table with
  | some old =>
    obtain ⟨front, back, rfl, -, put⟩ := Table.put_of_some found cell
    rw [put] at mem
    grind
  | none =>
    rw [(Table.put_of_none found cell).2] at mem
    grind

theorem Table.AllFit.put {table : Table Cell} (fits : table.AllFit) {cell : Cell} (new : cell.Fits)
    (sym : String) : (table.put sym cell).AllFit := by
  intro other entry mem
  rcases Table.mem_put mem with rfl | old
  · exact new
  · exact fits other entry old

namespace Evaluator

section

variable {ev : Evaluator} {env : Env} {op : Op} {m after : Machine} {values : List Value} {p : Program}

theorem fits_of_intResult {bits : Nat} (done : intResult p op bits = .ok values) :
    ∀ value ∈ values, value.Fits := by
  obtain ⟨ty, -, done⟩ := bind_eq_ok.mp done
  cases ty with
  | int ty =>
    cases done
    simpa using Value.fits_ofNat ty bits
  | tensor shape elem => cases done
  | memref elem => cases done

theorem castTo_eq_ok {ty : Ty} {value result : Value} (done : castTo op ty value = .ok result) :
    result.Fits ∧ result.ElemsFit := by
  unfold castTo at done
  split at done
  · split at done
    · rename_i elems shape elem same
      cases done
      refine ⟨by simpa [Value.Fits] using same, fun x mem => ?_⟩
      obtain ⟨y, -, rfl⟩ := List.mem_map.mp mem
      exact truncate_lt_two_pow elem.bits y
    · cases done
  · cases done
    exact ⟨Value.fits_ofNat _ _, trivial⟩
  · cases done

/-- Results that depend on operands alone. Integers are cut to the declared type, and the elements of a
tensor are counted. -/
theorem fits_of_pureStep? (done : pureStep? p env op = some (.ok values)) :
    ∀ value ∈ values, value.Fits := by
  unfold pureStep? at done
  split at done <;> simp only [Option.some.injEq, reduceCtorEq] at done
  · exact fits_of_intResult done
  · obtain ⟨lhs, -, done⟩ := bind_eq_ok.mp done
    obtain ⟨rhs, -, done⟩ := bind_eq_ok.mp done
    exact fits_of_intResult done
  · obtain ⟨operand, -, done⟩ := bind_eq_ok.mp done
    obtain ⟨amount, -, done⟩ := bind_eq_ok.mp done
    exact fits_of_intResult done
  · obtain ⟨operand, -, done⟩ := bind_eq_ok.mp done
    exact fits_of_intResult done
  · obtain ⟨operand, -, done⟩ := bind_eq_ok.mp done
    exact fits_of_intResult done
  · obtain ⟨operand, -, done⟩ := bind_eq_ok.mp done
    obtain ⟨target, -, done⟩ := bind_eq_ok.mp done
    exact fits_of_intResult done
  · obtain ⟨ty, -, done⟩ := bind_eq_ok.mp done
    obtain ⟨elems, -, done⟩ := bind_eq_ok.mp done
    split at done
    · rename_i counted
      cases done
      simpa [Value.Fits] using counted.symm
    · cases done
  · obtain ⟨ty, -, done⟩ := bind_eq_ok.mp done
    obtain ⟨operand, -, done⟩ := bind_eq_ok.mp done
    obtain ⟨result, cast, done⟩ := bind_eq_ok.mp done
    cases done
    simpa using (castTo_eq_ok cast).1

/-- What an operation gives fits its type. -/
theorem Effect.fits (effect : Effect ev env op m values after) : ∀ value ∈ values, value.Fits := by
  cases effect with
  | compute done => exact fits_of_pureStep? done
  | access kind found => simp [Value.Fits]
  | load kind ref found => simpa using Value.fits_ofNat _ _
  | store kind operand ref found => simp
  | update kind parts => simp [Value.Fits]

/-- The elements that a cast or a state update gives are within their width. -/
theorem Effect.elemsFit (effect : Effect ev env op m values after)
    (cuts : op.kind = .cast ∨ op.kind = .rngUpdate) : ∀ value ∈ values, value.ElemsFit := by
  cases effect with
  | compute done =>
    rcases cuts with kind | kind
    · simp only [pureStep?, kind, Option.some.injEq] at done
      obtain ⟨ty, -, done⟩ := bind_eq_ok.mp done
      obtain ⟨operand, -, done⟩ := bind_eq_ok.mp done
      obtain ⟨result, cast, done⟩ := bind_eq_ok.mp done
      cases done
      simpa using (castTo_eq_ok cast).2
    · exact absurd kind (quiet_of_pureStep? done).2
  | access kind found => simp [kind] at cuts
  | load kind ref found => simp [kind] at cuts
  | store kind operand ref found => simp [kind] at cuts
  | update kind parts =>
    simp only [List.mem_singleton, forall_eq, Value.ElemsFit]
    intro x mem
    obtain ⟨index, -, rfl⟩ := List.mem_map.mp mem
    exact chunk_lt_two_pow _ _ index

/-- What an operation leaves in the cells fits their types. -/
theorem Effect.allFit (effect : Effect ev env op m values after) (fits : m.cells.AllFit) :
    after.cells.AllFit := by
  cases effect with
  | compute done => exact fits
  | access kind found => exact fits
  | load kind ref found => exact fits
  | store kind operand ref found => exact fits.put (truncate_lt_two_pow _ _) _
  | update kind parts => exact fits.put (truncate_lt_two_pow _ _) _

end

section

variable {ev : Evaluator} {m : Machine} {name : String}

theorem fits_of_argFor {p : Program} {func : String} {param : ValueId} {arg : Nat} {value : Value}
    (done : argFor p func param arg = .ok value) : value.Fits := by
  unfold argFor at done
  split at done
  · cases done
  · cases done
    exact Value.fits_ofNat _ arg
  · cases done

theorem fits_of_enterInts {args : List Nat} {start : Activation}
    (entered : ev.enterInts name args m = .ok start) (fits : m.cells.AllFit) : start.Fits := by
  obtain ⟨op, -, entered⟩ := bind_eq_ok.mp entered
  obtain ⟨values, bound, isStart⟩ := bind_eq_ok.mp entered
  cases isStart
  refine ⟨fun v value mem => ?_, fits⟩
  rcases mem_bindAll.mp mem with new | old
  · obtain ⟨item, -, given⟩ := exists_of_mem_mapM bound (List.of_mem_zip new).2
    exact fits_of_argFor given
  · cases old

theorem Next.fits {a b : Activation} (next : ev.Next a b) (fits : a.Fits) : b.Fits := by
  cases next with
  | skip gone => exact ⟨fits.env, fits.cells⟩
  | step found goesOn done =>
    have effect := effect_of_step done
    refine ⟨fun v value mem => ?_, effect.allFit fits.cells⟩
    rcases mem_bindAll.mp mem with new | old
    · exact effect.fits value (List.of_mem_zip new).2
    · exact fits.env v value old

theorem fits_of_steps {a b : Activation} (steps : Relation.ReflTransGen ev.Next a b) (fits : a.Fits) :
    b.Fits := by
  induction steps with
  | refl => exact fits
  | tail _ next ih => exact next.fits ih

theorem Ends.fits {a : Activation} {values : List Value} {after : Machine}
    (ends : ev.Ends a (.ok values after)) (fits : a.Fits) : ∀ value ∈ values, value.Fits := by
  generalize isAnswer : (EStateM.Result.ok values after : Answer) = answer at ends
  cases ends with
  | finish =>
    cases isAnswer
    simp
  | @ret env id left m op found isRet =>
    obtain ⟨fetched, -⟩ := ofExcept_eq_ok.mp isAnswer.symm
    intro value mem
    obtain ⟨v, -, bound⟩ := exists_of_mem_mapM fetched mem
    have looked : env.lookup v = some value := by rw [← fetch_toOption, bound, Except.toOption]
    obtain ⟨front, back, isEnv, -⟩ := List.lookup_eq_some_iff.mp looked
    exact fits.env v value (by simp [isEnv])
  | fail found goesOn fails => cases isAnswer

theorem fits_of_callInts {args : List Nat} {values : List Value} {after : Machine}
    (done : ev.callInts name args m = .ok values after) (fits : m.cells.AllFit) :
    ∀ value ∈ values, value.Fits := by
  have settles : ev.Settles m _ _ := settles_callInts name args m
  cases entered : ev.enterInts name args m with
  | error reason =>
    rw [settles.refused reason entered] at done
    cases done
  | ok start =>
    obtain ⟨-, last, steps, ends, -⟩ := settles.ended start entered
    rw [done] at ends
    exact ends.fits (fits_of_steps steps (fits_of_enterInts entered fits))

theorem allFit_of_callInts (args : List Nat) (fits : m.cells.AllFit) :
    (machineOf (ev.callInts name args m)).cells.AllFit := by
  have settles : ev.Settles m _ _ := settles_callInts name args m
  cases entered : ev.enterInts name args m with
  | error reason =>
    rw [settles.refused reason entered]
    exact fits
  | ok start =>
    obtain ⟨-, last, steps, -, cells⟩ := settles.ended start entered
    rw [cells]
    exact (fits_of_steps steps (fits_of_enterInts entered fits)).cells

/-- What is asked of a machine from outside. -/
inductive Command where
  | call (name : String) (args : List Nat)
  | set (sym : String) (value : Nat)

/-- The machine after a command, whether it succeeds or fails. -/
def obey (ev : Evaluator) (m : Machine) : Command → Machine
  | .call name args => machineOf (ev.callInts name args m)
  | .set sym value => machineOf (setGlobal sym value m)

theorem allFit_obey (fits : m.cells.AllFit) (command : Command) :
    (ev.obey m command).cells.AllFit := by
  cases command with
  | call name args => exact allFit_of_callInts args fits
  | set sym value =>
    change (machineOf (setGlobal sym value m)).cells.AllFit
    rw [setGlobal_eq]
    cases m.cell? sym with
    | none => exact fits
    | some cell => exact fits.put (truncate_lt_two_pow _ _) sym

theorem allFit_foldl_obey (commands : List Command) (fits : m.cells.AllFit) :
    (commands.foldl ev.obey m).cells.AllFit := by
  induction commands generalizing m with
  | nil => exact fits
  | cons command rest ih => exact ih (allFit_obey fits command)

end

end Evaluator

theorem allFit_foldl_put {entries : List (String × Cell)} (each : Table.AllFit entries)
    {cells : Table Cell} (fits : cells.AllFit) :
    (entries.foldl (fun cells (sym, cell) => cells.put sym cell) cells).AllFit := by
  induction entries generalizing cells with
  | nil => exact fits
  | cons entry rest ih =>
    exact ih (fun sym cell mem => each sym cell (by simp [mem]))
      (fits.put (each entry.1 entry.2 (by simp)) entry.1)

/-- A lowering makes no other cell than the counter, which holds the seed. -/
theorem Outline.Step.allFit {config : Config} {o after : Outline} (step : Outline.Step config o after)
    (fits : Table.AllFit o.cellEntries) : Table.AllFit after.cellEntries := by
  cases step with
  | create undefined =>
    rw [cellEntries_cons_counterStmt]
    intro sym cell mem
    rcases List.mem_cons.mp mem with new | old
    · cases new
      exact truncate_lt_two_pow _ _
    · exact fits sym cell old
  | expand site =>
    rw [site.cellEntries_expanded]
    exact fits

theorem Outline.allFit_of_steps {config : Config} {o after : Outline}
    (steps : Relation.ReflTransGen (Outline.Step config) o after) (fits : Table.AllFit o.cellEntries) :
    Table.AllFit after.cellEntries := by
  induction steps with
  | refl => exact fits
  | tail _ step ih => exact step.allFit ih

theorem allFit_ofProgram {p : Program} {o : Outline} (rep : p.Represents o)
    (fits : Table.AllFit o.cellEntries) : (Machine.ofProgram p).cells.AllFit := by
  rw [Machine.cells_ofProgram rep]
  exact allFit_foldl_put fits (fun sym cell mem => by cases mem)

theorem allFit_of_isText {p : Program} {o : Outline} (isText : p.IsText o) :
    Table.AllFit o.cellEntries := by
  intro sym cell mem
  exact Nat.lt_of_lt_of_le (isText.legible.fits mem) (bitLimit_le_two_pow _)

/-- Before and after a lowering, and whatever was called and set so far: all cells fit their types, and so
does everything that is bound in the course of a call, and that it returns. Casts and state updates give
elements within their width. -/
theorem runs_fit {file text : String} {p : Program} (read : Program.ofText file text = .ok p)
    (config : Config) {q : Program} (side : q = p ∨ q = (lower config p).program)
    (commands : List Evaluator.Command) :
    let ev : Evaluator := ⟨q, config⟩
    let m := commands.foldl ev.obey (Machine.ofProgram q)
    m.cells.AllFit ∧
    (∀ name args start a, ev.enterInts name args m = .ok start →
      Relation.ReflTransGen ev.Next start a → a.Fits) ∧
    (∀ name args values after, ev.callInts name args m = .ok values after →
      ∀ value ∈ values, value.Fits) ∧
    ∀ env op before values after, op.kind = .cast ∨ op.kind = .rngUpdate →
      ev.step env op before = .ok values after → ∀ value ∈ values, value.ElemsFit := by
  intro ev m
  obtain ⟨o, isText⟩ := Program.exists_isText_of_ofText read
  have start : (Machine.ofProgram q).cells.AllFit := by
    rcases side with rfl | rfl
    · exact allFit_ofProgram isText.represents (allFit_of_isText isText)
    · obtain ⟨ids, expands⟩ := Lowering.exists_expands_lower (Lowering.ready_of_isText isText) config
      obtain ⟨-, after, rep, steps⟩ := expands.outline isText.represents
      exact allFit_ofProgram rep (Outline.allFit_of_steps steps (allFit_of_isText isText))
  have cells : m.cells.AllFit := Evaluator.allFit_foldl_obey commands start
  refine ⟨cells, fun name args first a entered steps => ?_, fun name args values after done => ?_,
    fun env op before values after cuts done => ?_⟩
  · exact Evaluator.fits_of_steps steps (Evaluator.fits_of_enterInts entered cells)
  · exact Evaluator.fits_of_callInts done cells
  · exact (Evaluator.effect_of_step done).elemsFit cuts

theorem exists_ok_of_outcome {α : Type} {answer : EStateM.Result EvalError Machine α} {a : α}
    (gives : (Evaluator.outcome answer).1 = some a) : ∃ after, answer = .ok a after := by
  cases answer with
  | ok result after =>
    cases gives
    exact ⟨after, rfl⟩
  | error reason after => cases gives

/-- The element of `%e` is beyond its width, and that of its cast is not. Two of the commands before fail. -/
theorem runs_fit_lowered :
    let config : Config := ⟨"s", 8, 200, .full⟩
    let commands : List Evaluator.Command := [.set "s" 999, .set "t" 1, .call "f" []]
    let d : Value := .int (.signless 8) 44
    let e : Value := .tensor (.tensor [] (.signless 4)) [44]
    let b : Value := .tensor (.tensor [] (.signless 4)) [12]
    let a : Value := .tensor (.tensor [2] (.signless 4)) [14, 7]
    ∃ p, Program.ofText "in" "func.func @f(%d: i8) \x7b
      %e = tensor.from_elements %d : tensor<i4>
      %b = builtin.unrealized_conversion_cast %e : tensor<i4>
      %a = mhlo.rng_get_and_update_state %d : tensor<2xi4>
      func.return %d, %e, %b, %a\x7d" = .ok p ∧
      let ev : Evaluator := ⟨(lower config p).program, config⟩
      let m := commands.foldl ev.obey (Machine.ofProgram ev.program)
      m.cells.AllFit ∧ (∃ start, ev.enterInts "f" [300] m = .ok start ∧ start.Fits) ∧
      (∃ after, ev.callInts "f" [300] m = .ok [d, e, b, a] after ∧ d.Fits ∧ e.Fits ∧ b.Fits ∧ a.Fits) ∧
      ¬ e.ElemsFit ∧ ∃ op, ev.program.op? 2 = some op ∧ op.kind = .cast ∧
        ∃ after, ev.step [(1, e)] op m = .ok [b] after ∧ b.ElemsFit := by
  intro config commands d e b a
  obtain ⟨p, read, entered, returned, casts⟩ : ∃ p, Program.ofText "in" "func.func @f(%d: i8) \x7b
      %e = tensor.from_elements %d : tensor<i4>
      %b = builtin.unrealized_conversion_cast %e : tensor<i4>
      %a = mhlo.rng_get_and_update_state %d : tensor<2xi4>
      func.return %d, %e, %b, %a\x7d" = .ok p ∧
      let ev : Evaluator := ⟨(lower config p).program, config⟩
      let m := commands.foldl ev.obey (Machine.ofProgram ev.program)
      (ev.enterInts "f" [300] m).isOk = true ∧
        (Evaluator.outcome (ev.callInts "f" [300] m)).1 = some [d, e, b, a] ∧
        ((ev.program.op? 2).any fun op => decide (op.kind = .cast ∧
          (Evaluator.outcome (ev.step [(1, e)] op m)).1 = some [b])) = true := by
    apply Program.exists_of_chars
    decide +kernel
  obtain ⟨start, entered⟩ := exists_eq_ok entered
  obtain ⟨after, returned⟩ := exists_ok_of_outcome returned
  obtain ⟨op, found, casts⟩ := (Option.any_eq_true _ _).mp casts
  obtain ⟨kind, given⟩ := of_decide_eq_true casts
  obtain ⟨last, given⟩ := exists_ok_of_outcome given
  obtain ⟨cells, bound, results, elems⟩ := runs_fit read config (.inr rfl) commands
  have fits := results "f" [300] _ after returned
  have cut := elems _ op _ _ last (.inl kind) given
  refine ⟨p, read, cells, ⟨start, entered, bound "f" [300] start start entered .refl⟩,
    ⟨after, returned, fits d (by simp), fits e (by simp), fits b (by simp), fits a (by simp)⟩, ?_,
    op, found, kind, last, given, cut b (by simp)⟩
  exact fun elemsFit => absurd (elemsFit 44 (by simp)) (by decide)

end RngLowering
