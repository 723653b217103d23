import RngLowering.Proofs.Expansion
import RngLowering.Proofs.Renaming

/-!
A counter that is created before it is used. A state update that finds no counter makes one, so that
an outline without a counter computes what it does with the counter put first. Until a state update is
run, the counter is missing on one side and holds the seed on the other.
-/

set_option autoImplicit false

namespace RngLowering

/-- Of two entries of a name, the later one counts. -/
theorem lookup_foldl_put (entries : List (String × Cell)) (start : Table Cell) (sym : String) :
    (entries.foldl (fun cells (sym, cell) => cells.put sym cell) start).lookup sym =
      (entries.reverse.lookup sym).or (start.lookup sym) := by
  induction entries generalizing start with
  | nil => rfl
  | cons entry rest ih =>
    rw [List.foldl_cons, ih, Table.lookup_put, List.reverse_cons, List.lookup_append,
      Option.or_assoc]
    congr 1
    obtain ⟨name, cell⟩ := entry
    by_cases same : sym = name
    · simp [same]
    · simp [same, List.lookup_cons, beq_false_of_ne same]

theorem lookup_eq_none_of_not_mem {entries : List (String × Cell)} {sym : String}
    (absent : sym ∉ entries.map Prod.fst) : entries.lookup sym = none := by
  rw [List.lookup_eq_none_iff]
  rintro ⟨other, cell⟩ mem
  simp only [bne_iff_ne, ne_eq]
  rintro rfl
  exact absent (List.mem_map_of_mem mem)

namespace Outline

def cellEntries (o : Outline) : List (String × Cell) := o.filterMap fun item => item.kind.cell?

theorem lookup_cells (o : Outline) (sym : String) :
    o.cells.lookup sym = o.cellEntries.reverse.lookup sym := by
  rw [cells, lookup_foldl_put, List.lookup_nil, Option.or_none]
  rfl

/-- A cell is defined under its name. -/
theorem defines_of_mem_cellEntries {o : Outline} {sym : String} {cell : Cell}
    (mem : (sym, cell) ∈ o.cellEntries) : ∃ item ∈ o, item.kind.defines sym = true := by
  obtain ⟨item, inside, isCell⟩ := List.mem_filterMap.mp mem
  refine ⟨item, inside, ?_⟩
  unfold OpKind.cell? at isCell
  split at isCell
  · rename_i global kind
    cases isCell
    simp [kind, OpKind.defines, OpKind.definesSymbol, OpKind.symbol?]
  · cases isCell

theorem lookup_cells_ne_none {o : Outline} {sym : String} {cell : Cell}
    (mem : (sym, cell) ∈ o.cellEntries) : o.cells.lookup sym ≠ none := by
  rw [lookup_cells, ne_eq, List.lookup_eq_none_iff]
  intro absent
  simpa using absent _ (List.mem_reverse.mpr mem)

theorem lookup_cells_of_undefined {o : Outline} {sym : String}
    (undefined : ∀ item ∈ o, item.kind.defines sym = false) : o.cells.lookup sym = none := by
  rw [lookup_cells]
  refine lookup_eq_none_of_not_mem fun mem => ?_
  obtain ⟨⟨other, cell⟩, inside, rfl⟩ := List.mem_map.mp mem
  obtain ⟨item, inOutline, defines⟩ := defines_of_mem_cellEntries (List.mem_reverse.mp inside)
  rw [undefined item inOutline] at defines
  cases defines

end Outline

/-- The cells agree, except that the counter may be missing from the first where the second has it
with its seed. -/
def CellsAgree (config : Config) (cells others : Table Cell) : Prop :=
  ∀ sym, others.lookup sym = cells.lookup sym ∨
    sym = config.stateSymbol ∧ cells.lookup sym = none ∧
      others.lookup sym = some ⟨config.wide, config.seed⟩

namespace CellsAgree

variable {config : Config} {cells others : Table Cell}

theorem refl (config : Config) (cells : Table Cell) : CellsAgree config cells cells :=
  fun _ => Or.inl rfl

theorem trans {more : Table Cell} (first : CellsAgree config cells others)
    (second : CellsAgree config others more) : CellsAgree config cells more := by
  intro sym
  rcases second sym with same | ⟨isCounter, missing, seeded⟩
  · rw [same]
    exact first sym
  · rcases first sym with same | ⟨-, -, present⟩
    · exact Or.inr ⟨isCounter, same ▸ missing, seeded⟩
    · rw [missing] at present
      cases present

theorem lookup_of_ne (agree : CellsAgree config cells others) {sym : String}
    (other : sym ≠ config.stateSymbol) : others.lookup sym = cells.lookup sym := by
  rcases agree sym with same | ⟨isCounter, -⟩
  · exact same
  · exact absurd isCounter other

theorem put (agree : CellsAgree config cells others) (sym : String) (cell : Cell) :
    CellsAgree config (cells.put sym cell) (others.put sym cell) := by
  intro other
  rw [Table.lookup_put, Table.lookup_put]
  by_cases same : other = sym
  · rw [if_pos same, if_pos same]
    exact Or.inl rfl
  · rw [if_neg same, if_neg same]
    exact agree other

/-- A state update makes the counter that is missing. -/
theorem counterCell_eq (agree : CellsAgree config cells others) (valid : config.validate = .ok ()) :
    Evaluator.counterCell config { cells := others } = Evaluator.counterCell config { cells } := by
  simp only [Evaluator.counterCell, Machine.cell?]
  rcases agree config.stateSymbol with same | ⟨-, missing, seeded⟩
  · rw [same]
  · rw [missing, seeded, truncate_of_lt (Config.validate_eq_ok.mp valid).2.2]
    rfl

end CellsAgree

section

variable {config : Config} {env : Env} {cells others : Table Cell}

theorem Stmt.cell?_ne {s : Stmt} (noRef : ∀ v, env.lookup v ≠ some (.ref config.stateSymbol))
    {index : Nat} {sym : String} (found : s.cell? env index = some sym) :
    sym ≠ config.stateSymbol := by
  rintro rfl
  unfold Stmt.cell? at found
  split at found
  · rename_i other bound
    cases found
    obtain ⟨v, -, bound⟩ := Option.bind_eq_some_iff.mp bound
    exact noRef v bound
  · cases found

/-- A statement that does not name the counter does the same on cells that agree. -/
theorem Stmt.act?_agree {s : Stmt} (valid : config.validate = .ok ())
    (agree : CellsAgree config cells others) (elsewhere : s.kind ≠ .getGlobal config.stateSymbol)
    (noRef : ∀ v, env.lookup v ≠ some (.ref config.stateSymbol)) :
    s.act? config env cells = none ∧ s.act? config env others = none ∨
      ∃ bound after othersAfter, s.act? config env cells = some (bound, after) ∧
        s.act? config env others = some (bound, othersAfter) ∧
        CellsAgree config after othersAfter ∧ Value.ref config.stateSymbol ∉ bound := by
  unfold Stmt.act?
  split
  · rename_i sym kind
    have other : sym ≠ config.stateSymbol := fun same => elsewhere (same ▸ kind)
    rw [agree.lookup_of_ne other]
    cases cells.lookup sym with
    | none => exact Or.inl ⟨rfl, rfl⟩
    | some cell =>
      exact Or.inr ⟨_, _, _, rfl, rfl, agree, by simpa using Ne.symm other⟩
  · cases found : s.cell? env 0 with
    | none => exact Or.inl ⟨rfl, rfl⟩
    | some sym =>
      simp only [Option.bind_eq_bind, Option.bind_some,
        agree.lookup_of_ne (Stmt.cell?_ne noRef found)]
      cases cells.lookup sym with
      | none => exact Or.inl ⟨rfl, rfl⟩
      | some cell => exact Or.inr ⟨_, _, _, rfl, rfl, agree, by simp [Value.ofNat]⟩
  · cases s.int? env 0 with
    | none => exact Or.inl ⟨rfl, rfl⟩
    | some value =>
      cases found : s.cell? env 1 with
      | none => exact Or.inl ⟨rfl, rfl⟩
      | some sym =>
        simp only [Option.bind_eq_bind, Option.bind_some,
          agree.lookup_of_ne (Stmt.cell?_ne noRef found)]
        cases cells.lookup sym with
        | none => exact Or.inl ⟨rfl, rfl⟩
        | some cell => exact Or.inr ⟨_, _, _, rfl, rfl, agree.put _ _, by simp⟩
  · cases s.update? config.counterBits env with
    | none => exact Or.inl ⟨rfl, rfl⟩
    | some parts =>
      simp only [Option.bind_eq_bind, Option.bind_some, agree.counterCell_eq valid]
      exact Or.inr ⟨_, _, _, rfl, rfl, agree.put _ _, by simp⟩
  · cases done : s.compute? env with
    | none => exact Or.inl ⟨rfl, rfl⟩
    | some bound =>
      refine Or.inr ⟨bound, cells, others, rfl, rfl, agree, ?_⟩
      rcases Stmt.compute?_cases done with ⟨ty, bits, -, rfl⟩ | ⟨ty, elems, rfl⟩
      · simp
      · simp

/-- What is bound after a statement is one of its results or was bound before. -/
theorem mem_zip_of_lookup {defs : List ValueId} {bound : List Value} {v : ValueId} {value : Value}
    (found : (bindAll defs bound env).lookup v = some value) :
    (v, value) ∈ defs.zip bound ∨ env.lookup v = some value := by
  rw [bindAll, List.lookup_append, Option.or_eq_some_iff] at found
  rcases found with inZip | ⟨-, before⟩
  · obtain ⟨front, back, split, -⟩ := List.lookup_eq_some_iff.mp inZip
    exact Or.inl (List.mem_reverse.mp (by simp [split]))
  · exact Or.inr before

theorem exec_agree {body : List Stmt} (valid : config.validate = .ok ())
    (elsewhere : ∀ s ∈ body, s.kind ≠ .getGlobal config.stateSymbol)
    (noRef : ∀ v, env.lookup v ≠ some (.ref config.stateSymbol))
    (agree : CellsAgree config cells others) :
    (exec config env body others).1 = (exec config env body cells).1 ∧
      CellsAgree config (exec config env body cells).2 (exec config env body others).2 := by
  induction body generalizing env cells others with
  | nil => exact ⟨rfl, agree⟩
  | cons s rest ih =>
    unfold exec
    split
    · exact ⟨rfl, agree⟩
    · rcases Stmt.act?_agree valid agree (elsewhere s (by simp)) noRef with
        ⟨fails, failsToo⟩ | ⟨bound, after, othersAfter, acts, actsToo, agreeAfter, noNewRef⟩
      · rw [fails, failsToo]
        exact ⟨rfl, agree⟩
      · rw [acts, actsToo]
        refine ih (fun t mem => elsewhere t (by simp [mem])) (fun v found => ?_) agreeAfter
        rcases mem_zip_of_lookup found with new | old
        · exact noNewRef (List.of_mem_zip new).2
        · exact noRef v old

end

theorem argOf?_cases {ty : Ty} {arg : Nat} {value : Value} (done : argOf? ty arg = some value) :
    ∃ elem bits, ty = .int elem ∧ value = .int elem bits := by
  unfold argOf? at done
  split at done
  · cases done
    exact ⟨_, _, rfl, rfl⟩
  · cases done

/-- Arguments are integers of the types of their parameters. -/
theorem argValues?_forall₂ {types : List Ty} {args : List Nat} {values : List Value}
    (done : argValues? types args = some values) :
    List.Forall₂ (fun ty value => ∃ elem bits, ty = .int elem ∧ value = .int elem bits) types
      values := by
  unfold argValues? at done
  split at done
  · rename_i sameLength
    induction types generalizing args values with
    | nil =>
      cases done
      exact .nil
    | cons ty rest ih =>
      cases args with
      | nil => cases sameLength
      | cons arg more =>
        rw [List.zip_cons_cons, List.mapM_cons] at done
        obtain ⟨value, first, done⟩ := Option.bind_eq_some_iff.mp done
        obtain ⟨later, mapped, done⟩ := Option.bind_eq_some_iff.mp done
        cases done
        exact .cons (argOf?_cases first) (ih (Nat.succ.inj sameLength) mapped)
  · cases done

namespace Outline

variable {config : Config} {o : Outline}

theorem function?_cons_counterStmt
    (undefined : ∀ item ∈ o, item.kind.defines config.stateSymbol = false) (name : String) :
    function? (.op config.counterStmt :: o) name = o.function? name := by
  unfold function?
  rw [List.find?_cons]
  cases defines : (Item.op config.counterStmt).kind.defines name with
  | false => rfl
  | true =>
    have same : config.stateSymbol = name := by
      simpa [Item.kind, Config.counterStmt, OpKind.defines, OpKind.definesSymbol, OpKind.symbol?]
        using defines
    have missing : (o.find? fun item => item.kind.defines name) = none := by
      rw [List.find?_eq_none]
      intro item mem
      rw [← same, undefined item mem]
      exact Bool.false_ne_true
    rw [missing]

theorem cellEntries_cons_counterStmt (config : Config) (o : Outline) :
    cellEntries (.op config.counterStmt :: o) =
      (config.stateSymbol, ⟨config.wide, truncate config.counterBits config.seed⟩) :: o.cellEntries :=
  rfl

theorem cellsAgree_cons_counterStmt (valid : config.validate = .ok ())
    (undefined : ∀ item ∈ o, item.kind.defines config.stateSymbol = false) :
    CellsAgree config o.cells (cells (.op config.counterStmt :: o)) := by
  intro sym
  have seed := truncate_of_lt (Config.validate_eq_ok.mp valid).2.2
  rw [lookup_cells, lookup_cells, cellEntries_cons_counterStmt, List.reverse_cons,
    List.lookup_append, seed]
  by_cases isCounter : sym = config.stateSymbol
  · have missing := lookup_cells_of_undefined undefined
    rw [← isCounter, lookup_cells] at missing
    rw [missing]
    exact Or.inr ⟨isCounter, rfl, by simp [isCounter]⟩
  · refine Or.inl ?_
    rw [List.lookup_cons, beq_false_of_ne isCounter]
    simp

theorem callInts_cons_counterStmt (valid : config.validate = .ok ())
    (undefined : ∀ item ∈ o, item.kind.defines config.stateSymbol = false)
    (elsewhere : ∀ s ∈ o.stmts, s.kind ≠ .getGlobal config.stateSymbol) (name : String)
    (args : List Nat) {cells others : Table Cell} (agree : CellsAgree config cells others) :
    (callInts config (.op config.counterStmt :: o) name args others).1 =
        (o.callInts config name args cells).1 ∧
      CellsAgree config (o.callInts config name args cells).2
        (callInts config (.op config.counterStmt :: o) name args others).2 := by
  unfold callInts
  rw [function?_cons_counterStmt undefined]
  cases found : o.function? name with
  | none => exact ⟨rfl, agree⟩
  | some pair =>
    obtain ⟨params, body⟩ := pair
    dsimp only
    cases bound : argValues? (params.map Prod.snd) args with
    | none => exact ⟨rfl, agree⟩
    | some values =>
      refine exec_agree valid (fun s inBody => elsewhere s (mem_stmts_of_function? found inBody))
        (fun v isRef => ?_) agree
      rcases mem_zip_of_lookup isRef with inZip | absurd
      · obtain ⟨ty, -, elem, bits, -, isInt⟩ := Program.forall₂_exists_of_mem
          (argValues?_forall₂ bound).flip (List.of_mem_zip inZip).2
        cases isInt
      · cases absurd

end Outline

end RngLowering
