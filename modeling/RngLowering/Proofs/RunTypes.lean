import RngLowering.Proofs.EarlyCounter

/-!
What runs of an outline bind. A value is bound to an integer of its declared type, unless a load gives
it: then the integer has the type of the cell that is read. Which cell that is can be told from the
outline, since references come from accesses alone.

An outline is lawful if its counter is one cell at most, and if no delta comes from a load that is
declared with another type than the cell has.
-/

set_option autoImplicit false

namespace RngLowering

namespace Outline

def Accesses (o : Outline) (v : ValueId) (sym : String) : Prop :=
  ∃ s ∈ o.stmts, s.kind = .getGlobal sym ∧ s.defs.head? = some v

def Loads (o : Outline) (v : ValueId) (cell : Cell) : Prop :=
  ∃ s ∈ o.stmts, s.kind = .load ∧ s.defs.head? = some v ∧
    ∃ ref sym, s.operands.head? = some ref ∧ o.Accesses ref sym ∧ o.cells.lookup sym = some cell

theorem Accesses.mem_defs {o : Outline} {v : ValueId} {sym : String} (accesses : o.Accesses v sym) :
    v ∈ o.defs := by
  obtain ⟨s, mem, -, first⟩ := accesses
  exact mem_defs_of_mem_stmts mem (List.mem_of_mem_head? first)

theorem Loads.mem_defs {o : Outline} {v : ValueId} {cell : Cell} (loads : o.Loads v cell) :
    v ∈ o.defs := by
  obtain ⟨s, mem, -, first, -⟩ := loads
  exact mem_defs_of_mem_stmts mem (List.mem_of_mem_head? first)

/-- What a value may be bound to. -/
inductive MayBe (o : Outline) : ValueId → Value → Prop
  | declared {v : ValueId} {ty : IntTy} {bits : Nat} (typed : (v, .int ty) ∈ o.typed) :
      MayBe o v (.int ty bits)
  | loaded {v : ValueId} {cell : Cell} {bits : Nat} (loads : o.Loads v cell) :
      MayBe o v (.int cell.elem bits)
  | tensor {v : ValueId} {ty : Ty} {elems : List Nat} : MayBe o v (.tensor ty elems)
  | ref {v : ValueId} {sym : String} (accesses : o.Accesses v sym) : MayBe o v (.ref sym)

/-- Values are bound to what they may be, and cells keep their types. -/
structure Regular (o : Outline) (env : Env) (cells : Table Cell) : Prop where
  values : ∀ v value, env.lookup v = some value → o.MayBe v value
  elems : ∀ sym, (cells.lookup sym).map Cell.elem = (o.cells.lookup sym).map Cell.elem

section

variable {config : Config} {o : Outline} {env : Env} {cells after : Table Cell} {s : Stmt}
  {bound : List Value}

theorem mem_typed_of_head? (mem : s ∈ o.stmts) {v : ValueId} {ty : Ty}
    (first : s.defs.head? = some v) (firstTy : s.types.head? = some ty) : (v, ty) ∈ o.typed := by
  refine mem_typed_of_mem_stmts mem ?_
  cases results : s.results with
  | nil => simp [Stmt.defs, results] at first
  | cons head rest =>
    simp only [Stmt.defs, Stmt.types, results, List.map_cons, List.head?_cons, Option.some.injEq]
      at first firstTy
    simp [← first, ← firstTy]

theorem Regular.accesses (regular : o.Regular env cells) {index : Nat} {sym : String}
    (found : s.cell? env index = some sym) :
    ∃ ref, s.operands[index]? = some ref ∧ o.Accesses ref sym := by
  unfold Stmt.cell? at found
  split at found
  · rename_i other bound
    cases found
    obtain ⟨ref, operand, bound⟩ := Option.bind_eq_some_iff.mp bound
    cases regular.values ref _ bound with
    | ref accesses => exact ⟨ref, operand, accesses⟩
  · cases found

/-- The result of a statement is what its first value may be. -/
theorem Regular.result (regular : o.Regular env cells) (mem : s ∈ o.stmts)
    (acts : s.act? config env cells = some (bound, after)) :
    bound = [] ∨ ∃ value, bound = [value] ∧ ∀ v, s.defs.head? = some v → o.MayBe v value := by
  unfold Stmt.act? at acts
  split at acts
  · rename_i sym kind
    obtain ⟨cell, -, same⟩ := Option.map_eq_some_iff.mp acts
    cases same
    exact Or.inr ⟨_, rfl, fun v first => .ref ⟨s, mem, kind, first⟩⟩
  · rename_i kind
    obtain ⟨sym, found, acts⟩ := Option.bind_eq_some_iff.mp acts
    obtain ⟨cell, stored, acts⟩ := Option.bind_eq_some_iff.mp acts
    cases acts
    obtain ⟨ref, operand, accesses⟩ := regular.accesses found
    have elem := regular.elems sym
    rw [stored, Option.map_some] at elem
    obtain ⟨defined, isDefined, sameElem⟩ := Option.map_eq_some_iff.mp elem.symm
    refine Or.inr ⟨_, rfl, fun v first => ?_⟩
    rw [Value.ofNat, ← sameElem]
    exact .loaded ⟨s, mem, kind, first, ref, sym, by rw [List.head?_eq_getElem?, operand], accesses,
      isDefined⟩
  · obtain ⟨value, -, acts⟩ := Option.bind_eq_some_iff.mp acts
    obtain ⟨sym, -, acts⟩ := Option.bind_eq_some_iff.mp acts
    obtain ⟨cell, -, acts⟩ := Option.bind_eq_some_iff.mp acts
    cases acts
    exact Or.inl rfl
  · obtain ⟨parts, -, acts⟩ := Option.bind_eq_some_iff.mp acts
    cases acts
    exact Or.inr ⟨_, rfl, fun _ _ => .tensor⟩
  · obtain ⟨values, done, same⟩ := Option.map_eq_some_iff.mp acts
    cases same
    rcases Stmt.compute?_cases done with ⟨ty, bits, firstTy, rfl⟩ | ⟨ty, elems, rfl⟩
    · exact Or.inr ⟨_, rfl, fun v first => .declared (mem_typed_of_head? mem first firstTy)⟩
    · exact Or.inr ⟨_, rfl, fun _ _ => .tensor⟩

theorem elems_put {sym : String} {cell new : Cell} (stored : cells.lookup sym = some cell)
    (same : new.elem = cell.elem) (other : String) :
    ((cells.put sym new).lookup other).map Cell.elem = (cells.lookup other).map Cell.elem := by
  rw [Table.lookup_put]
  by_cases isSym : other = sym
  · rw [if_pos isSym, isSym, stored, Option.map_some, Option.map_some, same]
  · rw [if_neg isSym]

/-- No statement changes the type of a cell. A state update does not create the counter if there is
one. -/
theorem elems_act? (present : cells.lookup config.stateSymbol ≠ none)
    (acts : s.act? config env cells = some (bound, after)) (other : String) :
    (after.lookup other).map Cell.elem = (cells.lookup other).map Cell.elem := by
  unfold Stmt.act? at acts
  split at acts
  · obtain ⟨cell, -, same⟩ := Option.map_eq_some_iff.mp acts
    cases same
    rfl
  · obtain ⟨sym, -, acts⟩ := Option.bind_eq_some_iff.mp acts
    obtain ⟨cell, -, acts⟩ := Option.bind_eq_some_iff.mp acts
    cases acts
    rfl
  · obtain ⟨value, -, acts⟩ := Option.bind_eq_some_iff.mp acts
    obtain ⟨sym, -, acts⟩ := Option.bind_eq_some_iff.mp acts
    obtain ⟨cell, stored, acts⟩ := Option.bind_eq_some_iff.mp acts
    cases acts
    refine elems_put stored ?_ other
    rfl
  · obtain ⟨parts, -, acts⟩ := Option.bind_eq_some_iff.mp acts
    cases acts
    obtain ⟨cell, stored⟩ := Option.ne_none_iff_exists'.mp present
    have found : Evaluator.counterCell config { cells } = cell := by
      simp [Evaluator.counterCell, Machine.cell?, stored]
    rw [found]
    refine elems_put stored ?_ other
    rfl
  · obtain ⟨values, -, same⟩ := Option.map_eq_some_iff.mp acts
    cases same
    rfl

theorem Regular.present (regular : o.Regular env cells) {sym : String}
    (present : o.cells.lookup sym ≠ none) : cells.lookup sym ≠ none := by
  intro missing
  have elem := regular.elems sym
  rw [missing, Option.map_none, eq_comm, Option.map_eq_none_iff] at elem
  exact present elem

theorem Regular.act? (regular : o.Regular env cells)
    (present : o.cells.lookup config.stateSymbol ≠ none) (mem : s ∈ o.stmts)
    (acts : s.act? config env cells = some (bound, after)) :
    o.Regular (bindAll s.defs bound env) after where
  values := by
    intro v value found
    rcases mem_zip_of_lookup found with new | old
    · rcases regular.result mem acts with rfl | ⟨result, rfl, fits⟩
      · rw [List.zip_nil_right] at new
        cases new
      · cases defs : s.defs with
        | nil => simp [defs] at new
        | cons first rest =>
          rw [defs, List.zip_cons_cons, List.zip_nil_right, List.mem_singleton] at new
          cases new
          exact fits v (by rw [defs, List.head?_cons])
    · exact regular.values v value old
  elems := by
    intro sym
    rw [elems_act? (regular.present present) acts]
    exact regular.elems sym

/-- Cells keep their types along a run. -/
theorem Regular.elems_exec {body : List Stmt} (regular : o.Regular env cells)
    (present : o.cells.lookup config.stateSymbol ≠ none) (inside : ∀ s ∈ body, s ∈ o.stmts)
    (sym : String) :
    ((exec config env body cells).2.lookup sym).map Cell.elem =
      (o.cells.lookup sym).map Cell.elem := by
  induction body generalizing env cells with
  | nil => exact regular.elems sym
  | cons s rest ih =>
    unfold exec
    split
    · exact regular.elems sym
    · cases acts : s.act? config env cells with
      | none => exact regular.elems sym
      | some pair =>
        exact ih (regular.act? present (inside s (by simp)) acts) fun t mem => inside t (by simp [mem])

end

/-- An outline whose counter is one cell at most, and which loads no delta under another type than
that of the cell. -/
structure Lawful (config : Config) (o : Outline) : Prop where
  closed : o.Closed
  single : (o.cellEntries.filter (·.1 = config.stateSymbol)).length ≤ 1
  defined : ∀ s ∈ o.stmts, s.kind = .getGlobal config.stateSymbol →
    o.cells.lookup config.stateSymbol ≠ none
  deltas : ∀ s ∈ o.stmts, s.kind = .rngUpdate → ∀ delta cell, s.operands = [delta] →
    o.Loads delta cell → (delta, .int cell.elem) ∈ o.typed

theorem eq_of_length_le_one {α : Type} {items : List α} (short : items.length ≤ 1) {a b : α}
    (left : a ∈ items) (right : b ∈ items) : a = b := by
  match items, short with
  | [item], _ => rw [List.mem_singleton.mp left, List.mem_singleton.mp right]

theorem exists_mem_of_isCell {config : Config} {item : Item}
    (defines : item.kind.defines config.stateSymbol = true)
    (isCell : Counter.isCell item.kind config.counterBits = true) :
    ∃ init, item.kind.cell? = some (config.stateSymbol, ⟨config.wide, init⟩) := by
  unfold Counter.isCell at isCell
  split at isCell
  · rename_i cell kind
    simp only [Bool.and_eq_true, decide_eq_true_eq] at isCell
    have named : cell.sym = config.stateSymbol := by
      simpa [kind, OpKind.defines, OpKind.definesSymbol, OpKind.symbol?] using defines
    refine ⟨cell.init, ?_⟩
    rw [kind, OpKind.cell?, named, isCell.2]
    rfl
  · cases isCell

/-- A counter that is found is the cell of its name. -/
theorem Lawful.counter {config : Config} {o : Outline} (lawful : o.Lawful config)
    (found : (o.find? fun item => item.kind.defines config.stateSymbol).any
      fun item => Counter.isCell item.kind config.counterBits) :
    ∃ cell, o.cells.lookup config.stateSymbol = some cell ∧ cell.elem = config.wide := by
  obtain ⟨item, first, isCell⟩ := Option.any_eq_true _ _ |>.mp found
  have defines : item.kind.defines config.stateSymbol = true := by simpa using List.find?_some first
  obtain ⟨init, entry⟩ := exists_mem_of_isCell defines isCell
  have listed : (config.stateSymbol, ⟨config.wide, init⟩) ∈ o.cellEntries :=
    List.mem_filterMap.mpr ⟨item, List.mem_of_find?_eq_some first, entry⟩
  obtain ⟨cell, looked⟩ := Option.ne_none_iff_exists'.mp (lookup_cells_ne_none listed)
  refine ⟨cell, looked, ?_⟩
  rw [lookup_cells, List.lookup_eq_some_iff] at looked
  obtain ⟨front, back, split, -⟩ := looked
  have other : (config.stateSymbol, cell) ∈ o.cellEntries := by
    rw [← List.mem_reverse, split]
    simp
  cases eq_of_length_le_one lawful.single (List.mem_filter.mpr ⟨listed, by simp⟩)
    (List.mem_filter.mpr ⟨other, by simp⟩)
  rfl

end Outline

end RngLowering
