import RngLowering.Proofs.Simulation
import RngLowering.Proofs.StepEffects
import RngLowering.Proofs.Words

set_option autoImplicit false

namespace RngLowering

namespace Evaluator

/-- The delta that an operation adds to the counter, if it is a state update. -/
def delta? (env : Env) (op : Op) : Option Int :=
  if op.kind = .rngUpdate then (intOperand env op 0).toOption.map fun (ty, bits) => ty.read bits
  else none

def deltas (steps : List Executed) : List Int := steps.filterMap fun e => delta? e.env e.op

def StoresTo (env : Env) (op : Op) (sym : String) : Prop :=
  op.kind = .store ∧ cellOperand env op 1 = .ok sym

instance (env : Env) (op : Op) (sym : String) : Decidable (StoresTo env op sym) :=
  inferInstanceAs (Decidable (_ ∧ _))

/-- What a state update that succeeds has found. -/
theorem updateParts_eq_ok {p : Program} {counterBits : Nat} {env : Env} {op : Op} {deltaTy : IntTy}
    {delta : Nat} {ty : Ty} (parts : updateParts p counterBits env op = .ok (deltaTy, delta, ty)) :
    intOperand env op 0 = .ok (deltaTy, delta) ∧ resultTy p op = .ok ty ∧
      0 < deltaTy.bits ∧ deltaTy.bits ≤ counterBits := by
  unfold updateParts at parts
  obtain ⟨⟨foundTy, bits⟩, operand, parts⟩ := bind_eq_ok.mp parts
  obtain ⟨result, resultFound, parts⟩ := bind_eq_ok.mp parts
  dsimp only at parts
  split at parts
  · cases parts
  · split at parts
    · cases parts
    · rename_i suits
      split at parts
      · cases parts
      · cases parts
        simp only [IntTy.isValid, Bool.or_eq_true, Bool.not_eq_true', decide_eq_true_eq,
          Bool.and_eq_false_iff, decide_eq_false_iff_not, not_or, not_not, Nat.not_lt] at suits
        exact ⟨operand, resultFound, suits.1.1, suits.2⟩

/-- A delta that is widened to a cell still stands for the same integer there. -/
theorem widenDelta_emod {cell : Cell} {ty : IntTy} (positive : 0 < ty.bits)
    (narrow : ty.bits ≤ cell.elem.bits) (fits : cell.elem.bits ≤ maxBits) (delta : Nat) :
    (widenDelta cell ty delta : Int) % 2 ^ cell.elem.bits =
      ty.read delta % 2 ^ cell.elem.bits := by
  unfold widenDelta IntTy.read
  by_cases signed : ty.isSigned = true
  · rw [if_pos signed, if_pos signed]
    exact signExtend_emod positive narrow fits delta
  · rw [if_neg signed, if_neg signed, truncate, bitLimit_of_le fits]
    push_cast
    exact Int.emod_emod_of_dvd _ (dvd_refl _)

/-- The counter is as wide as it should be and holds a total. If its cell is not there yet, this is the
counter that the next state update makes. -/
structure Counts (config : Config) (cells : Table Cell) (total : Int) : Prop where
  bits : (counterCell config { cells }).elem.bits = config.counterBits
  value : ((counterCell config { cells }).value : Int) = total % 2 ^ config.counterBits

section

variable {ev : Evaluator} {env : Env} {op : Op} {m after : Machine} {values : List Value} {total : Int}

theorem counterCell_putCell (config : Config) (m : Machine) (sym : String) (cell : Cell) :
    counterCell config (m.putCell sym cell) =
      if config.stateSymbol = sym then cell else counterCell config m := by
  unfold counterCell Machine.cell? Machine.putCell
  rw [Table.lookup_put]
  split
  · rfl
  · rfl

theorem Counts.lt_wordLimit {config : Config} (valid : config.validate = .ok ())
    (counts : Counts config m.cells total) : (counterCell config m).value < wordLimit := by
  obtain ⟨-, ⟨-, fits⟩, -⟩ := Config.validate_eq_ok.mp valid
  have value : ((counterCell config m).value : Int) = total % 2 ^ config.counterBits := counts.value
  have below : total % 2 ^ config.counterBits < (2 : Int) ^ config.counterBits :=
    Int.emod_lt_of_pos _ (by positivity)
  have inWord : (2 : Nat) ^ config.counterBits ≤ wordLimit := Nat.pow_le_pow_right (by decide) fits
  rw [← value] at below
  exact Nat.lt_of_lt_of_le (by exact_mod_cast below) inWord

/-- A state update adds its delta to the counter. -/
theorem Counts.advance {config : Config} (valid : config.validate = .ok ())
    (counts : Counts config m.cells total) {ty : IntTy} (positive : 0 < ty.bits)
    (narrow : ty.bits ≤ config.counterBits) (delta : Nat) :
    Counts config (m.putCell config.stateSymbol (advance (counterCell config m) ty delta)).cells
      (total + ty.read delta) := by
  obtain ⟨-, ⟨-, fits⟩, -⟩ := Config.validate_eq_ok.mp valid
  have bits : (counterCell config m).elem.bits = config.counterBits := counts.bits
  have value : ((counterCell config m).value : Int) = total % 2 ^ config.counterBits := counts.value
  have same : counterCell config
      { cells := (m.putCell config.stateSymbol (Evaluator.advance (counterCell config m) ty delta)).cells } =
        Evaluator.advance (counterCell config m) ty delta := by
    have found := counterCell_putCell config m config.stateSymbol
      (Evaluator.advance (counterCell config m) ty delta)
    rwa [if_pos rfl] at found
  constructor
  · rw [same]
    exact bits
  · rw [same]
    have widened := widenDelta_emod positive (bits ▸ narrow) (bits ▸ fits) delta
    simp only [Evaluator.advance, truncate, bits, bitLimit_of_le fits]
    rw [bits] at widened
    push_cast
    rw [Int.add_emod, widened, value, Int.emod_emod_of_dvd _ (dvd_refl _), ← Int.add_emod]

theorem delta?_of_update (isUpdate : op.kind = .rngUpdate) {ty : IntTy} {bits : Nat}
    (operand : intOperand env op 0 = .ok (ty, bits)) : delta? env op = some (ty.read bits) := by
  simp [delta?, isUpdate, operand]

theorem delta?_of_ne (other : op.kind ≠ .rngUpdate) : delta? env op = none := by
  simp [delta?, other]

/-- What a step does to the counter: a state update has a delta and advances it, and no other step that
spares its cell changes it. -/
theorem Effect.counterCell_eq (effect : Effect ev env op m values after)
    (spared : ¬ StoresTo env op ev.config.stateSymbol) :
    (delta? env op = none ∧ counterCell ev.config after = counterCell ev.config m ∧
      (after.cell? ev.config.stateSymbol).isSome = (m.cell? ev.config.stateSymbol).isSome) ∨
    ∃ ty bits, 0 < ty.bits ∧ ty.bits ≤ ev.config.counterBits ∧ delta? env op = some (ty.read bits) ∧
      after = m.putCell ev.config.stateSymbol (advance (counterCell ev.config m) ty bits) := by
  cases effect with
  | compute done => exact .inl ⟨delta?_of_ne (quiet_of_pureStep? done).2, rfl, rfl⟩
  | access kind found => exact .inl ⟨delta?_of_ne (by simp [kind]), rfl, rfl⟩
  | load kind ref found => exact .inl ⟨delta?_of_ne (by simp [kind]), rfl, rfl⟩
  | @store ty value sym cell kind operand ref found =>
    have apart : ev.config.stateSymbol ≠ sym := by
      rintro rfl
      exact spared ⟨kind, ref⟩
    refine .inl ⟨delta?_of_ne (by simp [kind]), ?_, ?_⟩
    · rw [counterCell_putCell, if_neg apart]
    · rw [Machine.cell?, Machine.putCell, Table.lookup_put, if_neg apart]
      rfl
  | update kind parts =>
    obtain ⟨operand, -, positive, narrow⟩ := updateParts_eq_ok parts
    exact .inr ⟨_, _, positive, narrow, delta?_of_update kind operand, rfl⟩

/-- A step that spares the counter adds its delta, if it has one. -/
theorem Counts.effect (valid : ev.config.validate = .ok ()) (counts : Counts ev.config m.cells total)
    (effect : Effect ev env op m values after)
    (spared : ¬ StoresTo env op ev.config.stateSymbol) :
    Counts ev.config after.cells (total + (delta? env op).getD 0) := by
  rcases effect.counterCell_eq spared with ⟨quiet, same, -⟩ | ⟨ty, bits, positive, narrow, delta, rfl⟩
  · rw [quiet, Option.getD_none, add_zero]
    exact ⟨(congrArg (·.elem.bits) same).trans counts.bits,
      (congrArg (fun cell : Cell => (cell.value : Int)) same).trans counts.value⟩
  · rw [delta, Option.getD_some]
    exact counts.advance valid positive narrow bits

/-- The cell of the counter is there from the first state update on. -/
theorem Effect.isSome_cell? (effect : Effect ev env op m values after)
    (spared : ¬ StoresTo env op ev.config.stateSymbol) :
    (after.cell? ev.config.stateSymbol).isSome =
      ((m.cell? ev.config.stateSymbol).isSome || (delta? env op).isSome) := by
  rcases effect.counterCell_eq spared with ⟨quiet, -, same⟩ | ⟨ty, bits, -, -, delta, rfl⟩
  · rw [same, quiet, Option.isSome_none, Bool.or_false]
  · rw [delta, Option.isSome_some, Bool.or_true, Machine.cell?, Machine.putCell, Table.lookup_put,
      if_pos rfl, Option.isSome_some]

/-- A state update has a delta, and gives the lowest digits of the counter, as many as its type has
elements. -/
theorem Counts.elements (valid : ev.config.validate = .ok ()) (counts : Counts ev.config m.cells total)
    (effect : Effect ev env op m values after) (isUpdate : op.kind = .rngUpdate) :
    (delta? env op).isSome ∧ ∃ ty elems, resultTy ev.program op = .ok ty ∧ values = [.tensor ty elems] ∧
      elems.length = ty.count ∧ (∀ x ∈ elems, x < 2 ^ ty.width) ∧
      ((Nat.ofDigits (2 ^ ty.width) elems.reverse : Nat) : Int) =
        total % 2 ^ ev.config.counterBits % 2 ^ (ty.width * ty.count) := by
  have fits := counts.lt_wordLimit valid
  have value : ((counterCell ev.config m).value : Int) = total % 2 ^ ev.config.counterBits :=
    counts.value
  cases effect with
  | compute done => exact absurd isUpdate (quiet_of_pureStep? done).2
  | access kind found => simp [kind] at isUpdate
  | load kind ref found => simp [kind] at isUpdate
  | store kind operand ref found => simp [kind] at isUpdate
  | @update deltaTy delta ty kind parts =>
    obtain ⟨operand, result, -, -⟩ := updateParts_eq_ok parts
    refine ⟨?_, ty, _, result, rfl, length_chunks _ _ _, ?_, ?_⟩
    · rw [delta?_of_update kind operand]
      rfl
    · intro x mem
      exact lt_of_mem_chunks fits mem
    · rw [ofDigits_chunks fits, ← value]
      push_cast
      rfl

theorem Follows.split {before rest : List Executed} {e : Executed} {cells last : Table Cell}
    (follows : ev.Follows cells (before ++ e :: rest) last) :
    ∃ m : Machine, ev.Follows cells before m.cells ∧
      ev.step e.env e.op m = .ok e.values e.after := by
  induction before generalizing cells with
  | nil =>
    cases follows with
    | @cons m _ _ _ stepped later => exact ⟨m, .nil m.cells, stepped⟩
  | cons head before ih =>
    cases follows with
    | cons stepped later =>
      obtain ⟨m, first, last⟩ := ih later
      exact ⟨m, .cons stepped first, last⟩

section

variable {steps : List Executed} {cells last : Table Cell}

/-- Steps that spare the counter add up their deltas. -/
theorem Follows.counts (follows : ev.Follows cells steps last) (valid : ev.config.validate = .ok ())
    (spared : ∀ e ∈ steps, ¬ StoresTo e.env e.op ev.config.stateSymbol)
    (counts : Counts ev.config cells total) :
    Counts ev.config last (total + (deltas steps).sum) := by
  induction follows generalizing total with
  | nil cells => simpa [deltas] using counts
  | @cons m e rest last stepped later ih =>
    rw [List.forall_mem_cons] at spared
    have next := ih spared.2 (counts.effect valid (effect_of_step stepped) spared.1)
    have sum : (deltas (e :: rest)).sum = (delta? e.env e.op).getD 0 + (deltas rest).sum := by
      unfold deltas
      rw [List.filterMap_cons]
      cases delta? e.env e.op with
      | none => simp
      | some delta => simp
    rw [sum, ← add_assoc]
    exact next

theorem Follows.isSome_lookup (follows : ev.Follows cells steps last)
    (spared : ∀ e ∈ steps, ¬ StoresTo e.env e.op ev.config.stateSymbol) :
    (last.lookup ev.config.stateSymbol).isSome =
      ((cells.lookup ev.config.stateSymbol).isSome || !(deltas steps).isEmpty) := by
  induction follows with
  | nil cells => simp [deltas]
  | @cons m e rest last stepped later ih =>
    rw [List.forall_mem_cons] at spared
    have here := (effect_of_step stepped).isSome_cell? spared.1
    unfold Machine.cell? at here
    rw [ih spared.2, here, deltas, deltas, List.filterMap_cons, Bool.or_assoc]
    cases delta? e.env e.op with
    | none => simp
    | some delta => simp

/-- The cell of the counter holds the total, once it is there. -/
theorem Follows.lookup (follows : ev.Follows cells steps last) (valid : ev.config.validate = .ok ())
    (spared : ∀ e ∈ steps, ¬ StoresTo e.env e.op ev.config.stateSymbol)
    (counts : Counts ev.config cells total) :
    (last.lookup ev.config.stateSymbol).map Cell.value =
      if cells.lookup ev.config.stateSymbol = none ∧ deltas steps = [] then none
      else some ((total + (deltas steps).sum) % 2 ^ ev.config.counterBits).toNat := by
  have value := (follows.counts valid spared counts).value
  have present := follows.isSome_lookup spared
  cases found : last.lookup ev.config.stateSymbol with
  | none =>
    rw [found] at present
    have absent : cells.lookup ev.config.stateSymbol = none ∧ deltas steps = [] := by
      simpa using present.symm
    rw [if_pos absent]
    rfl
  | some cell =>
    rw [found] at present
    have there : ¬ (cells.lookup ev.config.stateSymbol = none ∧ deltas steps = []) := by
      rintro ⟨absent, idle⟩
      simp [absent, idle] at present
    have here : counterCell ev.config { cells := last } = cell := by
      simp [counterCell, Machine.cell?, found]
    rw [here] at value
    rw [if_neg there, ← value]
    rfl

end

end

end Evaluator

theorem lookup_eq_head? (entries : List (String × Cell)) (sym : String) :
    entries.lookup sym = (entries.filter (·.1 = sym)).head?.map Prod.snd := by
  induction entries with
  | nil => rfl
  | cons entry rest ih =>
    obtain ⟨name, cell⟩ := entry
    by_cases same : name = sym
    · simp [same]
    · rw [List.lookup_cons, beq_false_of_ne (Ne.symm same), ih]
      simp [same]

/-- A program starts with the last cell of each name. -/
theorem Machine.cell?_ofProgram (p : Program) (sym : String) :
    (Machine.ofProgram p).cell? sym = (p.cellsNamed sym).getLast?.map Prod.snd := by
  rw [Machine.cell?, Machine.ofProgram, lookup_foldl_put, List.lookup_nil, Option.or_none,
    lookup_eq_head?, List.filter_reverse, List.head?_reverse]
  rfl

/-- What is written for a cell is cut to its width. -/
theorem Outline.Legible.fits {o : Outline} (legible : o.Legible) {sym : String} {cell : Cell}
    (mem : (sym, cell) ∈ o.cellEntries) : cell.value < bitLimit cell.elem.bits := by
  obtain ⟨item, inside, isCell⟩ := List.mem_filterMap.mp mem
  cases item with
  | func name params body => cases isCell
  | op s =>
    have read := (legible (.op s) inside).kind
    rcases kindOf_cases read with ⟨value, -, same⟩ | ⟨t, elem, visibility, value, frozen, -, -, -, same⟩ |
      ⟨t, -, -, same⟩ | found | same
    · simp [Item.kind, same, OpKind.cell?] at isCell
    · rw [Item.kind, same] at isCell
      cases isCell
      exact truncate_lt elem.bits value
    · simp [Item.kind, same, OpKind.cell?] at isCell
    · unfold OpKind.cell? at isCell
      split at isCell
      · rename_i global kind
        exact absurd kind ((plain?_cases found).2.2.2.2.1 global)
      · cases isCell
    · rw [Item.kind, same] at isCell
      cases isCell

/-- What the counter starts with: the seed if the program has no cell of its name, and what is written
for the cell if it has one of the right width. -/
def Program.CounterStart (config : Config) (p : Program) (start : Nat) : Prop :=
  (p.cellsNamed config.stateSymbol = [] ∧ start = config.seed) ∨
    ∃ cell, p.cellsNamed config.stateSymbol = [(config.stateSymbol, cell)] ∧
      cell.elem.bits = config.counterBits ∧ start = cell.value

theorem counts_ofProgram {p : Program} {o : Outline} (isText : p.IsText o) {config : Config}
    (valid : config.validate = .ok ()) {start : Nat} (counter : p.CounterStart config start) :
    Evaluator.Counts config (Machine.ofProgram p).cells start := by
  obtain ⟨-, ⟨-, narrow⟩, seed⟩ := Config.validate_eq_ok.mp valid
  have found := Machine.cell?_ofProgram p config.stateSymbol
  have small : ∀ value, value < bitLimit config.counterBits →
      ((value : Nat) : Int) = (value : Int) % 2 ^ config.counterBits := by
    intro value fits
    rw [bitLimit_of_le narrow] at fits
    exact (Int.emod_eq_of_lt (by positivity) (by exact_mod_cast fits)).symm
  rcases counter with ⟨absent, rfl⟩ | ⟨cell, named, bits, rfl⟩
  · rw [absent] at found
    have here : Evaluator.counterCell config { cells := (Machine.ofProgram p).cells } =
        ⟨.signless config.counterBits, config.seed⟩ := by
      have missing : Machine.cell? { cells := (Machine.ofProgram p).cells } config.stateSymbol = none :=
        found
      rw [Evaluator.counterCell, missing, Option.getD_none, truncate_of_lt seed]
    constructor
    · rw [here]
      rfl
    · rw [here]
      exact small config.seed seed
  · rw [named] at found
    have here : Evaluator.counterCell config { cells := (Machine.ofProgram p).cells } = cell := by
      have there : Machine.cell? { cells := (Machine.ofProgram p).cells } config.stateSymbol = some cell :=
        found
      rw [Evaluator.counterCell, there, Option.getD_some]
    constructor
    · rw [here]
      exact bits
    · rw [here]
      have listed : (config.stateSymbol, cell) ∈ o.cellEntries := by
        have mem : (config.stateSymbol, cell) ∈ p.cellsNamed config.stateSymbol := by simp [named]
        rw [Program.cellsNamed_eq isText.represents] at mem
        exact List.mem_of_mem_filter mem
      exact small cell.value (bits ▸ isText.legible.fits listed)

/-- The counter is read and advanced in the order of the steps, across calls. Before a state update it
holds the start plus all deltas so far, modulo its width; the update gives the digits of that, the most
significant first, as far as its elements go; and after any step, and after all calls, the cell of the
counter holds the total so far, unless it is still to be made. -/
theorem Evaluator.counter_trace {file text : String} {p : Program}
    (read : Program.ofText file text = .ok p) {config : Config} (valid : config.validate = .ok ())
    {start : Nat} (counter : p.CounterStart config start) (calls : List (String × List Nat))
    (spared : ∀ e ∈ (trace ⟨p, config⟩ (Machine.ofProgram p) calls).1,
      ¬ StoresTo e.env e.op config.stateSymbol) :
    let total (steps : List Executed) : Int := (start + (deltas steps).sum) % 2 ^ config.counterBits
    let cell (steps : List Executed) : Option Nat :=
      if p.cellsNamed config.stateSymbol = [] ∧ deltas steps = [] then none
      else some (total steps).toNat
    (∀ before e rest, (trace ⟨p, config⟩ (Machine.ofProgram p) calls).1 = before ++ e :: rest →
      (e.op.kind = .rngUpdate → (delta? e.env e.op).isSome ∧
        ∃ ty elems, resultTy p e.op = .ok ty ∧ e.values = [.tensor ty elems] ∧
          elems.length = ty.count ∧ (∀ x ∈ elems, x < 2 ^ ty.width) ∧
          ((Nat.ofDigits (2 ^ ty.width) elems.reverse : Nat) : Int) =
            total before % 2 ^ (ty.width * ty.count)) ∧
      e.after.global? config.stateSymbol = cell (before ++ [e])) ∧
    ∀ last, (session ⟨p, config⟩ (Machine.ofProgram p) calls).getLast? = some last →
      last.2.global? config.stateSymbol =
        cell (trace ⟨p, config⟩ (Machine.ofProgram p) calls).1 := by
  intro total cell
  obtain ⟨o, isText⟩ := Program.exists_isText_of_ofText read
  have counts := counts_ofProgram isText valid counter
  have follows : Follows ⟨p, config⟩ _ _ _ := follows_trace (Machine.ofProgram p) calls
  have undeclared : (Machine.ofProgram p).cells.lookup config.stateSymbol = none ↔
      p.cellsNamed config.stateSymbol = [] := by
    have found := Machine.cell?_ofProgram p config.stateSymbol
    rw [Machine.cell?] at found
    rw [found, Option.map_eq_none_iff, List.getLast?_eq_none_iff]
  -- the cell after steps that are a front part of the trace
  have held : ∀ steps (m : Machine),
      Follows ⟨p, config⟩ (Machine.ofProgram p).cells steps m.cells →
      (∀ e ∈ steps, ¬ StoresTo e.env e.op config.stateSymbol) →
      m.global? config.stateSymbol = cell steps := by
    intro steps m front spared
    have holds := front.lookup valid spared counts
    simp only [undeclared] at holds
    exact holds
  constructor
  · intro before e rest split
    rw [split] at follows spared
    obtain ⟨m, front, stepped⟩ := follows.split
    have sparedFront : ∀ e ∈ before, ¬ StoresTo e.env e.op config.stateSymbol :=
      fun e mem => spared e (List.mem_append_left _ mem)
    have sparedHere : ¬ StoresTo e.env e.op config.stateSymbol := spared e (by simp)
    constructor
    · intro isUpdate
      exact (front.counts valid sparedFront counts).elements valid (effect_of_step stepped) isUpdate
    · apply held (before ++ [e]) e.after (front.append (.cons stepped (.nil e.after.cells)))
      intro step mem
      rcases List.mem_append.mp mem with inFront | last
      · exact sparedFront step inFront
      · rw [List.mem_singleton.mp last]
        exact sparedHere
  · intro last isLast
    have machine : (trace ⟨p, config⟩ (Machine.ofProgram p) calls).2 = _ := trace_snd _ _
    rw [isLast, Option.map_some, Option.getD_some] at machine
    rw [← machine]
    exact held _ _ follows spared

/-- Signed and signless deltas across calls, one of which finds no function. There is a store, but to
another cell. -/
theorem Evaluator.counter_trace_mixed :
    let config : Config := ⟨"s", 8, 200, .full⟩
    let calls := [("f", [9, 11]), ("g", []), ("f", [7, 2])]
    ∃ p, Program.ofText "in" "memref.global @s \x7binit = 250\x7d : memref<ui8>
      memref.global @t : memref<i8>
      func.func @f(%d: si4, %k: i8) \x7b
      %a = mhlo.rng_get_and_update_state %d : tensor<2xi4>
      %c = memref.get_global @t : memref<i8>
      memref.store %k, %c
      %b = mhlo.rng_get_and_update_state %k : tensor<2xi4>\x7d" = .ok p ∧
      p.CounterStart config 250 ∧
      (∀ e ∈ (trace ⟨p, config⟩ (Machine.ofProgram p) calls).1,
        ¬ StoresTo e.env e.op config.stateSymbol) ∧
      deltas (trace ⟨p, config⟩ (Machine.ofProgram p) calls).1 = [-7, 11, 7, 2] ∧
      ∀ last, (session ⟨p, config⟩ (Machine.ofProgram p) calls).getLast? = some last →
        last.2.global? config.stateSymbol = some 7 := by
  intro config calls
  obtain ⟨p, read, named, spared, added⟩ :
      ∃ p, Program.ofText "in" "memref.global @s \x7binit = 250\x7d : memref<ui8>
      memref.global @t : memref<i8>
      func.func @f(%d: si4, %k: i8) \x7b
      %a = mhlo.rng_get_and_update_state %d : tensor<2xi4>
      %c = memref.get_global @t : memref<i8>
      memref.store %k, %c
      %b = mhlo.rng_get_and_update_state %k : tensor<2xi4>\x7d" = .ok p ∧
      p.cellsNamed "s" = [("s", ⟨⟨8, .unsigned⟩, 250⟩)] ∧
      (∀ e ∈ (trace ⟨p, config⟩ (Machine.ofProgram p) calls).1,
        ¬ StoresTo e.env e.op config.stateSymbol) ∧
      deltas (trace ⟨p, config⟩ (Machine.ofProgram p) calls).1 = [-7, 11, 7, 2] := by
    apply Program.exists_of_chars
    decide +kernel
  have counter : p.CounterStart config 250 := .inr ⟨_, named, rfl, rfl⟩
  refine ⟨p, read, counter, spared, added, ?_⟩
  intro last isLast
  have holds := (counter_trace read (by decide) counter calls spared).2 last isLast
  have declared : p.cellsNamed config.stateSymbol ≠ [] := by simp [config, named]
  simp only [added, declared, false_and, if_false] at holds
  rw [holds]
  decide

end RngLowering
