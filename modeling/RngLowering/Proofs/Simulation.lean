import RngLowering.Proofs.BlockMeaning
import RngLowering.Proofs.RunTypes
import RngLowering.Proofs.Verdict

/-!
Lowering keeps what programs compute. A step of lowering leaves an outline that answers all calls as
before. Where a state update makes way for a block, a run reaches both with the same values bound to
all else, and the block does what the state update did.
-/

set_option autoImplicit false

namespace RngLowering

theorem OpKind.defines_of_silent {kind : OpKind} (silent : kind.definesSymbol = false)
    (name : String) : kind.defines name = false := by
  rw [OpKind.defines, silent, Bool.false_and]

theorem OpKind.cell?_of_silent {kind : OpKind} (silent : kind.definesSymbol = false) :
    kind.cell? = none := by
  unfold OpKind.cell?
  split
  · cases silent
  · rfl

namespace Outline

theorem function?_append (first second : Outline) (name : String) :
    function? (first ++ second) name =
      if (first.find? fun item => item.kind.defines name).isSome then first.function? name
      else second.function? name := by
  unfold function?
  rw [List.find?_append]
  cases first.find? fun item => item.kind.defines name <;> rfl

theorem function?_map_op {more : List Stmt} (silent : ∀ t ∈ more, t.kind.definesSymbol = false)
    (rest : Outline) (name : String) :
    function? (more.map .op ++ rest) name = rest.function? name := by
  have missing : ((more.map Item.op).find? fun item => item.kind.defines name) = none := by
    rw [List.find?_eq_none]
    intro item mem
    obtain ⟨t, inside, rfl⟩ := List.mem_map.mp mem
    rw [Item.kind, OpKind.defines_of_silent (silent t inside)]
    exact Bool.false_ne_true
  rw [function?_append, missing]
  rfl

end Outline

namespace Cursor

open Outline (function? function?_append function?_map_op mem_defs_of_function?)

variable {c : Cursor} {more : List Stmt}

theorem mem_stmts_ahead {t : Stmt} :
    t ∈ (c.ahead more).outline.stmts ↔ t ∈ more ∨ t ∈ c.outline.stmts := by
  cases c with
  | top before after =>
    simp only [ahead, outline, Outline.stmts, List.flatMap_append, List.mem_append, List.flatMap_map,
      Item.stmts, List.flatMap_singleton']
    tauto
  | inner before sym params front back after =>
    simp only [ahead, outline, Outline.stmts, List.flatMap_append, List.flatMap_cons, List.mem_append,
      Item.stmts]
    tauto

theorem mem_typed_ahead {entry : ValueId × Ty} :
    entry ∈ (c.ahead more).outline.typed ↔
      entry ∈ more.flatMap Stmt.results ∨ entry ∈ c.outline.typed := by
  cases c with
  | top before after =>
    simp only [ahead, outline, Outline.typed, List.flatMap_append, List.mem_append, List.flatMap_map,
      Item.typed]
    tauto
  | inner before sym params front back after =>
    simp only [ahead, outline, Outline.typed, List.flatMap_append, List.flatMap_cons, List.mem_append,
      Item.typed]
    tauto

/-- Statements that define no cell leave the cells as they are. -/
theorem cellEntries_ahead (silent : ∀ t ∈ more, t.kind.definesSymbol = false) :
    (c.ahead more).outline.cellEntries = c.outline.cellEntries := by
  cases c with
  | top before after =>
    have items : (more.map Item.op).filterMap (fun item => item.kind.cell?) = [] := by
      rw [List.filterMap_eq_nil_iff]
      intro item mem
      obtain ⟨t, inside, rfl⟩ := List.mem_map.mp mem
      exact OpKind.cell?_of_silent (silent t inside)
    simp only [ahead, outline, Outline.cellEntries, List.filterMap_append, items, List.nil_append]
  | inner before sym params front back after =>
    simp only [ahead, outline, Outline.cellEntries, List.filterMap_append, List.filterMap_cons]
    rfl

/-- A function either has nothing to do with a point or holds it. -/
theorem function?_ahead (c : Cursor) (name : String) :
    (∃ found, (∀ more, (∀ t ∈ more, t.kind.definesSymbol = false) →
        (c.ahead more).outline.function? name = found) ∧
      ∀ params body, found = some (params, body) →
        ∀ v ∈ params.map Prod.fst ++ body.flatMap Stmt.defs, v ∈ c.defsBefore ++ c.defsAfter) ∨
    ∃ params front back,
      (∀ more, (c.ahead more).outline.function? name = some (params, front ++ (more ++ back))) ∧
      (∀ v ∈ params.map Prod.fst ++ front.flatMap Stmt.defs, v ∈ c.defsBefore) ∧
      ∀ v ∈ back.flatMap Stmt.defs, v ∈ c.defsAfter := by
  cases c with
  | top before after =>
    refine Or.inl ⟨function? (before ++ after) name, fun more silent => ?_, ?_⟩
    · simp only [ahead, outline, function?_append, function?_map_op silent]
    · intro params body found v mem
      simpa [Outline.defs, defsBefore, defsAfter] using mem_defs_of_function? found mem
  | inner before sym params front back after =>
    cases early : (before.find? fun item => item.kind.defines name).isSome with
    | true =>
      refine Or.inl ⟨function? before name, fun more _ => ?_, fun _ _ found v mem => ?_⟩
      · simp only [ahead, outline, function?_append, early, if_true]
      · simp [defsBefore, mem_defs_of_function? found mem]
    | false =>
      cases here : (Item.func sym params []).kind.defines name with
      | true =>
        refine Or.inr ⟨params, front, back, fun more => ?_, fun v mem => ?_, fun v mem => ?_⟩
        · simp only [ahead, outline, function?_append, early, Bool.false_eq_true, if_false]
          rw [function?, List.find?_cons_of_pos (by exact here)]
        · exact List.mem_append_right _ mem
        · exact List.mem_append_left _ mem
      | false =>
        refine Or.inl ⟨function? after name, fun more _ => ?_, fun _ _ found v mem => ?_⟩
        · simp only [ahead, outline, function?_append, early, Bool.false_eq_true, if_false]
          rw [function?, List.find?_cons_of_neg (by simpa [Item.kind] using here)]
          rfl
        · simp [defsAfter, mem_defs_of_function? found mem]

end Cursor

theorem Stmt.rewire_eq_mapValues (f : ValueId → ValueId) (s : Stmt) :
    s.rewire f = s.mapValues f id := by
  simp [Stmt.rewire, Stmt.mapValues]

namespace StateUpdate.Site

variable {config : Config} {c : Cursor} {s : Stmt} {parts : Parts} {r n : ValueId} {env other : Env}
  {cells : Table Cell}

theorem delta_mem (site : Site config c s parts r n) (closed : (c.ahead [s]).outline.Closed) :
    parts.delta ∈ (c.ahead [s]).outline.defs := by
  rcases Outline.mem_defs_of_scoped closed.inScope (c.mem_stmts s)
    (by simp [site.proper.operands] : parts.delta ∈ s.operands) with inside | absurd
  · exact inside
  · cases absurd

/-- The delta is bound to an integer of its declared type, if to any. -/
theorem delta_eq (site : Site config c s parts r n)
    (lawful : (c.ahead [s]).outline.Lawful config)
    (regular : (c.ahead [s]).outline.Regular env cells) {ty : IntTy} {bits : Nat}
    (bound : env.lookup parts.delta = some (.int ty bits)) : ty = parts.deltaTy := by
  have declared : (parts.delta, .int ty) ∈ (c.ahead [s]).outline.typed := by
    cases regular.values parts.delta _ bound with
    | declared typed => exact typed
    | loaded loads =>
      exact lawful.deltas s (c.mem_stmts s) site.proper.kind parts.delta _ site.proper.operands loads
  cases site.typed _ declared
  rfl

/-- Rewiring takes no value to one that is defined elsewhere. -/
theorem apart (site : Site config c s parts r n) (closed : (c.ahead [s]).outline.Closed)
    (wide : IntTy) {defs : List ValueId}
    (elsewhere : ∀ w ∈ defs, w ∈ c.defsBefore ++ c.defsAfter) :
    Apart (swap r (blockResult wide parts n)) id (c.ahead [s]).outline.defs defs := by
  intro v inDefs w mem
  have outside := elsewhere w mem
  have notResult : w ≠ r := by
    rintro rfl
    exact (List.nodup_cons.mp (site.nodup_cons closed)).1 outside
  have below : w < n := by
    refine site.fresh w ?_
    rw [site.defs_eq, List.perm_middle.mem_iff]
    exact List.mem_cons_of_mem _ outside
  by_cases isResult : v = r
  · rw [isResult, swap_self]
    refine ⟨fun same => ?_, fun same => absurd same.symm notResult⟩
    have above := le_of_mem_block (blockResult_mem config.stateSymbol wide parts n)
    rw [same] at above
    exact absurd above (Nat.not_le_of_lt below)
  · rw [swap_of_ne isResult]
    exact Iff.rfl

/-- From where a run reaches the state update, the outline with the block goes on alike. -/
theorem exec_block (site : Site config c s parts r n) (valid : config.validate = .ok ())
    (lawful : (c.ahead [s]).outline.Lawful config)
    (rel : EnvRel (swap r (blockResult config.wide parts n)) (c.ahead [s]).outline.defs env other)
    (regular : (c.ahead [s]).outline.Regular env cells) {back : List Stmt}
    (known : ∀ t ∈ back, ∀ v ∈ t.operands, v ∈ (c.ahead [s]).outline.defs)
    (elsewhere : ∀ t ∈ back, ∀ w ∈ t.defs, w ∈ c.defsBefore ++ c.defsAfter) :
    exec config other (block config.stateSymbol config.wide parts n ++
        back.map (Stmt.rewire (swap r (blockResult config.wide parts n)))) cells =
      exec config env (s :: back) cells := by
  have notRet : s.kind ≠ .ret := by simp [site.proper.kind]
  obtain ⟨defined, isDefined, definedElem⟩ := lawful.counter site.counter
  have stored := regular.elems config.stateSymbol
  rw [isDefined, Option.map_some, definedElem, Option.map_eq_some_iff] at stored
  obtain ⟨cell, stored, elem⟩ := stored
  have deltaMem := site.delta_mem lawful.closed
  have deltaRel := rel parts.delta deltaMem
  rw [swap_of_ne site.delta_ne] at deltaRel
  by_cases isInt : ∃ ty bits, env.lookup parts.delta = some (.int ty bits)
  · obtain ⟨ty, bits, bound⟩ := isInt
    cases site.delta_eq lawful regular bound
    have acts := site.proper.act? stored bound
    obtain ⟨after, run, same, result⟩ := runs_block valid site.proper stored elem
      (site.fresh _ deltaMem) (deltaRel.trans bound)
    have runUpdate := (Runs.cons notRet acts (.nil config _ _)) back
    rw [site.proper.defs] at runUpdate
    rw [run]
    refine Eq.trans ?_ runUpdate.symm
    rw [List.map_congr_left fun t _ => Stmt.rewire_eq_mapValues _ t]
    refine exec_mapValues known (fun t mem => site.apart lawful.closed _ (elsewhere t mem))
      (fun v mem => ?_) config _
    -- The result is bound on both sides, by the name that it has there.
    by_cases isResult : v = r
    · rw [isResult, swap_self, result]
      exact List.lookup_cons_self.symm
    · have before := rel v mem
      rw [swap_of_ne isResult] at before ⊢
      rw [same v (site.fresh v mem), before]
      exact (List.lookup_cons.trans (by rw [beq_false_of_ne isResult]; rfl)).symm
  · have notInt : ∀ ty bits, env.lookup parts.delta ≠ some (.int ty bits) :=
      fun ty bits bound => isInt ⟨ty, bits, bound⟩
    rw [exec_of_act?_none notRet (site.proper.act?_of_unbound notInt),
      exec_block_of_unbound stored (site.fresh _ deltaMem) fun ty bits => by
        rw [deltaRel]; exact notInt ty bits]

end StateUpdate.Site

namespace Outline

theorem function?_rewire (f : ValueId → ValueId) (o : Outline) (name : String) :
    (Outline.rewire f o).function? name =
      (o.function? name).map fun (params, body) => (params, body.map (Stmt.rewire f)) := by
  unfold function? Outline.rewire
  have test : (fun item : Item => item.kind.defines name) ∘ Item.rewire f =
      fun item => item.kind.defines name := by
    funext item
    cases item <;> rfl
  rw [List.find?_map, test]
  cases o.find? fun item => item.kind.defines name with
  | none => rfl
  | some item => cases item <;> rfl

/-- Parameters are bound to integers of their types. -/
theorem param_of_mem_zip {params : List (ValueId × Ty)} {args : List Nat} {values : List Value}
    (bound : argValues? (params.map Prod.snd) args = some values) {v : ValueId} {value : Value}
    (mem : (v, value) ∈ (params.map Prod.fst).zip values) :
    ∃ elem bits, (v, .int elem) ∈ params ∧ value = .int elem bits := by
  have all := argValues?_forall₂ bound
  clear bound
  induction params generalizing values with
  | nil => cases mem
  | cons param rest ih =>
    rw [List.map_cons] at all
    cases all with
    | cons head later =>
      rcases List.mem_cons.mp mem with here | there
      · cases here
        obtain ⟨elem, bits, ty, isInt⟩ := head
        exact ⟨elem, bits, by simp [← ty], isInt⟩
      · obtain ⟨elem, bits, inRest, isInt⟩ := ih there later
        exact ⟨elem, bits, List.mem_cons_of_mem _ inRest, isInt⟩

theorem regular_start {o : Outline} {cells : Table Cell}
    (elems : ∀ sym, (cells.lookup sym).map Cell.elem = (o.cells.lookup sym).map Cell.elem)
    {name : String} {params : List (ValueId × Ty)} {body : List Stmt}
    (found : o.function? name = some (params, body)) {args : List Nat} {values : List Value}
    (bound : argValues? (params.map Prod.snd) args = some values) :
    o.Regular (bindAll (params.map Prod.fst) values []) cells where
  values := by
    intro v value looked
    rcases mem_zip_of_lookup looked with inZip | absurd
    · obtain ⟨elem, bits, param, rfl⟩ := param_of_mem_zip bound inZip
      obtain ⟨sym, inside⟩ := mem_of_function? found
      exact .declared (List.mem_flatMap.mpr ⟨_, inside, List.mem_append_left _ param⟩)
    · cases absurd
  elems := elems

/-- Cells keep their types along calls. -/
theorem elems_callInts {config : Config} {o : Outline} {cells : Table Cell}
    (present : o.cells.lookup config.stateSymbol ≠ none)
    (elems : ∀ sym, (cells.lookup sym).map Cell.elem = (o.cells.lookup sym).map Cell.elem)
    (name : String) (args : List Nat) (sym : String) :
    ((o.callInts config name args cells).2.lookup sym).map Cell.elem =
      (o.cells.lookup sym).map Cell.elem := by
  unfold callInts
  cases found : o.function? name with
  | none => exact elems sym
  | some pair =>
    obtain ⟨params, body⟩ := pair
    dsimp only
    cases bound : argValues? (params.map Prod.snd) args with
    | none => exact elems sym
    | some values =>
      exact (regular_start elems found bound).elems_exec present
        (fun s mem => mem_stmts_of_function? found mem) sym

end Outline

namespace StateUpdate

variable {config : Config} {c : Cursor} {s : Stmt} {parts : Parts} {r n : ValueId}

/-- The access and the load of a block, and the rest of it. -/
theorem kind_of_mem_block {sym : String} {wide : IntTy} {t : Stmt}
    (mem : t ∈ block sym wide parts n) :
    t.kind = .getGlobal sym ∧ t.defs = [n] ∨ t.kind = .load ∧ t.defs = [n + 1] ∨
      t.kind ≠ .load ∧ t.kind ≠ .rngUpdate ∧ t.kind.symbol? = none := by
  have words : ∀ indices next, t ∈ wordStmts wide parts.word (n + 1) indices next →
      t.kind ≠ .load ∧ t.kind ≠ .rngUpdate ∧ t.kind.symbol? = none := by
    intro indices
    induction indices with
    | nil =>
      intro next inWords
      cases inWords
    | cons index rest ih =>
      intro next inWords
      simp only [wordStmts, List.cons_append, List.nil_append, List.mem_cons] at inWords
      rcases inWords with rfl | rfl | rfl | later
      · simp [OpKind.symbol?]
      · simp [OpKind.symbol?]
      · simp [OpKind.symbol?]
      · exact ih (next + 3) later
  simp only [block, accessStmts, advanceStmts, packStmts, List.mem_append, List.mem_cons,
    List.not_mem_nil, or_false] at mem
  rcases mem with (rfl | rfl) | inDelta | (rfl | rfl) | inWords | rfl | rfl
  · exact Or.inl ⟨rfl, rfl⟩
  · exact Or.inr (Or.inl ⟨rfl, rfl⟩)
  · refine Or.inr (Or.inr ?_)
    unfold deltaStmts at inDelta
    split at inDelta
    · cases inDelta
    · split at inDelta <;>
        · rw [List.mem_singleton.mp inDelta]
          simp [OpKind.symbol?]
  · exact Or.inr (Or.inr (by simp [OpKind.symbol?]))
  · exact Or.inr (Or.inr (by simp [OpKind.symbol?]))
  · exact Or.inr (Or.inr (words _ _ inWords))
  · exact Or.inr (Or.inr (by simp [OpKind.symbol?]))
  · exact Or.inr (Or.inr (by simp [OpKind.symbol?]))

theorem silent_block {sym : String} {wide : IntTy} {t : Stmt} (mem : t ∈ block sym wide parts n) :
    t.kind.definesSymbol = false := by
  rcases kind_of_mem_block mem with ⟨kind, -⟩ | ⟨kind, -⟩ | ⟨-, -, noSymbol⟩
  · rw [kind]
    rfl
  · rw [kind]
    rfl
  · cases kind : t.kind <;> simp_all [OpKind.definesSymbol, OpKind.symbol?]

namespace Site

theorem envRel_start (site : Site config c s parts r n) (closed : (c.ahead [s]).outline.Closed)
    {params : List (ValueId × Ty)}
    (elsewhere : ∀ v ∈ params.map Prod.fst, v ∈ c.defsBefore ++ c.defsAfter) (values : List Value) :
    EnvRel (swap r (blockResult config.wide parts n)) (c.ahead [s]).outline.defs
      (bindAll (params.map Prod.fst) values []) (bindAll (params.map Prod.fst) values []) := by
  have empty : EnvRel (swap r (blockResult config.wide parts n)) (c.ahead [s]).outline.defs [] [] :=
    fun _ _ => rfl
  have start := empty.bind (site.apart closed config.wide elsewhere) values
  rwa [List.map_id] at start

/-- A call on the outline with the block is answered as before, with the same cells after it. -/
theorem callInts_expanded (site : Site config c s parts r n) (valid : config.validate = .ok ())
    (lawful : (c.ahead [s]).outline.Lawful config) {cells : Table Cell}
    (elems : ∀ sym, (cells.lookup sym).map Cell.elem =
      ((c.ahead [s]).outline.cells.lookup sym).map Cell.elem) (name : String) (args : List Nat) :
    (expanded config c parts r n).callInts config name args cells =
      (c.ahead [s]).outline.callInts config name args cells := by
  have silent : ∀ t ∈ [s], t.kind.definesSymbol = false := by
    intro t mem
    rw [List.mem_singleton.mp mem, site.proper.kind]
    rfl
  obtain ⟨cell, isDefined, -⟩ := lawful.counter site.counter
  have present : (c.ahead [s]).outline.cells.lookup config.stateSymbol ≠ none := by simp [isDefined]
  have rewired : ∀ body : List Stmt,
      body.map (Stmt.rewire (swap r (blockResult config.wide parts n))) =
        body.map (Stmt.mapValues (swap r (blockResult config.wide parts n)) id) :=
    fun body => List.map_congr_left fun t _ => Stmt.rewire_eq_mapValues _ t
  unfold Outline.callInts expanded
  rw [Outline.function?_rewire]
  rcases c.function?_ahead name with ⟨found, same, elsewhere⟩ |
    ⟨params, front, back, holds, early, late⟩
  · rw [same _ fun t => silent_block, same _ silent]
    cases found with
    | none => rfl
    | some pair =>
      obtain ⟨params, body⟩ := pair
      dsimp only [Option.map_some]
      cases argValues? (params.map Prod.snd) args with
      | none => rfl
      | some values =>
        have outside := elsewhere params body rfl
        dsimp only
        rw [rewired]
        refine exec_mapValues (Outline.known_of_function? lawful.closed.inScope (same _ silent))
          (fun t mem => site.apart lawful.closed _ fun w defined => outside w ?_)
          (site.envRel_start lawful.closed (fun v mem => outside v (List.mem_append_left _ mem)) values)
          config cells
        exact List.mem_append_right _ (List.mem_flatMap.mpr ⟨t, mem, defined⟩)
  · have function := holds [s]
    have known := Outline.known_of_function? lawful.closed.inScope function
    have inside : ∀ t ∈ front ++ ([s] ++ back), t ∈ (c.ahead [s]).outline.stmts :=
      fun t => Outline.mem_stmts_of_function? function
    rw [holds, holds]
    dsimp only [Option.map_some]
    cases bound : argValues? (params.map Prod.snd) args with
    | none => rfl
    | some values =>
      dsimp only
      rw [List.map_append, List.map_append, site.rewire_block, rewired front]
      refine exec_mapValues_append ((c.ahead [s]).outline.Regular)
        (fun t mem => known t (by simp [mem])) (fun t mem => site.apart lawful.closed _ fun w defined =>
          List.mem_append_left _ (early w ?_))
        (fun t mem env cells bound after regular acts =>
          regular.act? present (inside t (by simp [mem])) acts)
        (fun env other cells rel regular => ?_)
        (site.envRel_start lawful.closed
          (fun v mem => List.mem_append_left _ (early v (List.mem_append_left _ mem))) values)
        (Outline.regular_start elems function bound)
      · exact List.mem_append_right _ (List.mem_flatMap.mpr ⟨t, mem, defined⟩)
      · exact site.exec_block valid lawful rel regular (fun t mem => known t (by simp [mem]))
          fun t mem w defined => List.mem_append_right _
            (late w (List.mem_flatMap.mpr ⟨t, mem, defined⟩))

end Site

end StateUpdate

/-- Calls on the second outline are answered as those on the first, and leave cells that agree. -/
def Outline.Simulates (config : Config) (o after : Outline) : Prop :=
  ∀ calls, List.Forall₂ (fun a b => b.1 = a.1 ∧ CellsAgree config a.2 b.2)
    (o.session config o.cells calls) (after.session config after.cells calls)

section

variable {config : Config} {o after : Outline}

theorem Outline.Simulates.refl (config : Config) (o : Outline) : o.Simulates config o :=
  fun _ => List.forall₂_same.mpr fun _ _ => ⟨rfl, .refl _ _⟩

theorem Outline.Simulates.trans {last : Outline} (first : o.Simulates config after)
    (second : after.Simulates config last) : o.Simulates config last :=
  fun calls => Program.forall₂_trans (first calls) (second calls) fun _ _ _ front back =>
    ⟨back.1.trans front.1, front.2.trans back.2⟩

theorem Outline.simulates_create (valid : config.validate = .ok ()) (lawful : o.Lawful config)
    (undefined : ∀ item ∈ o, item.kind.defines config.stateSymbol = false) :
    o.Simulates config (.op config.counterStmt :: o) := by
  have elsewhere : ∀ s ∈ o.stmts, s.kind ≠ .getGlobal config.stateSymbol :=
    fun s mem access => lawful.defined s mem access (lookup_cells_of_undefined undefined)
  have start := cellsAgree_cons_counterStmt valid undefined
  intro calls
  generalize o.cells = cells at start ⊢
  generalize Outline.cells (.op config.counterStmt :: o) = others at start ⊢
  induction calls generalizing cells others with
  | nil => exact .nil
  | cons call rest ih =>
    obtain ⟨name, args⟩ := call
    have answer := callInts_cons_counterStmt valid undefined elsewhere name args start
    exact .cons answer (ih _ _ answer.2)

theorem Outline.cellEntries_rewire (f : ValueId → ValueId) (o : Outline) :
    (Outline.rewire f o).cellEntries = o.cellEntries := by
  simp only [cellEntries, Outline.rewire, List.filterMap_map]
  refine List.filterMap_congr fun item _ => ?_
  cases item <;> rfl

theorem Outline.stmts_rewire (f : ValueId → ValueId) (o : Outline) :
    (Outline.rewire f o).stmts = o.stmts.map (Stmt.rewire f) := by
  simp only [stmts, Outline.rewire, List.flatMap_map, List.map_flatMap]
  refine List.flatMap_congr fun item _ => ?_
  cases item <;> rfl

theorem Outline.typed_rewire (f : ValueId → ValueId) (o : Outline) :
    (Outline.rewire f o).typed = o.typed := by
  simp only [typed, Outline.rewire, List.flatMap_map]
  refine List.flatMap_congr fun item _ => ?_
  cases item with
  | op s => rfl
  | func sym params body =>
    simp only [Item.rewire, Item.typed, List.flatMap_map]
    rfl

theorem Outline.cells_congr (same : after.cellEntries = o.cellEntries) : after.cells = o.cells := by
  change after.cellEntries.foldl _ _ = o.cellEntries.foldl _ _
  rw [same]

namespace StateUpdate.Site

variable {c : Cursor} {s : Stmt} {parts : Parts} {r n : ValueId}

theorem cellEntries_expanded (site : Site config c s parts r n) :
    (expanded config c parts r n).cellEntries = (c.ahead [s]).outline.cellEntries := by
  have silent : ∀ t ∈ [s], t.kind.definesSymbol = false := by
    intro t mem
    rw [List.mem_singleton.mp mem, site.proper.kind]
    rfl
  rw [expanded, Outline.cellEntries_rewire, Cursor.cellEntries_ahead fun t => silent_block,
    Cursor.cellEntries_ahead silent]

theorem simulates (site : Site config c s parts r n) (valid : config.validate = .ok ())
    (lawful : (c.ahead [s]).outline.Lawful config) :
    (c.ahead [s]).outline.Simulates config (expanded config c parts r n) := by
  obtain ⟨cell, isDefined, -⟩ := lawful.counter site.counter
  have session : ∀ calls cells, (∀ sym, (cells.lookup sym).map Cell.elem =
      ((c.ahead [s]).outline.cells.lookup sym).map Cell.elem) →
      (expanded config c parts r n).session config cells calls =
        (c.ahead [s]).outline.session config cells calls := by
    intro calls
    induction calls with
    | nil =>
      intro cells elems
      rfl
    | cons call rest ih =>
      intro cells elems
      obtain ⟨name, args⟩ := call
      simp only [Outline.session, site.callInts_expanded valid lawful elems]
      rw [ih _ (Outline.elems_callInts (by simp [isDefined]) elems name args)]
  intro calls
  rw [Outline.cells_congr site.cellEntries_expanded, session calls _ fun _ => rfl]
  exact Outline.Simulates.refl config _ calls

theorem lt_blockResult (wide : IntTy) (parts : Parts) (n : Nat) :
    n + 1 < blockResult wide parts n := by
  refine Nat.lt_trans (lt_sumValue wide parts n) (Nat.lt_succ_of_le ?_)
  exact Nat.le_trans (Nat.le_succ _) (Nat.le_add_right _ _)

/-- A use that is rewired below the result of the block has not moved. -/
theorem swap_eq_of_lt (site : Site config c s parts r n) {v : ValueId}
    (mem : v ∈ (c.ahead [s]).outline.defs)
    (below : swap r (blockResult config.wide parts n) v < n + 2) :
    swap r (blockResult config.wide parts n) v = v ∧ v < n := by
  refine ⟨swap_of_ne ?_, site.fresh v mem⟩
  rintro rfl
  rw [swap_self] at below
  exact Nat.not_le_of_lt (lt_blockResult config.wide parts n) (Nat.le_of_lt_succ below)

/-- A statement of the outline with the block is one of the block or of the outline before. -/
theorem mem_stmts_expanded {t : Stmt} (mem : t ∈ (expanded config c parts r n).stmts) (s : Stmt) :
    ∃ old, old.rewire (swap r (blockResult config.wide parts n)) = t ∧
      (old ∈ block config.stateSymbol config.wide parts n ∨ old ∈ (c.ahead [s]).outline.stmts) := by
  rw [expanded, Outline.stmts_rewire, List.mem_map] at mem
  obtain ⟨old, inside, same⟩ := mem
  refine ⟨old, same, ?_⟩
  rcases Cursor.mem_stmts_ahead.mp inside with inBlock | before
  · exact Or.inl inBlock
  · exact Or.inr (Cursor.mem_stmts_ahead.mpr (Or.inr before))

theorem accesses_expanded {v : ValueId} {sym : String}
    (accesses : (expanded config c parts r n).Accesses v sym) (s : Stmt) :
    v = n ∨ (c.ahead [s]).outline.Accesses v sym := by
  obtain ⟨t, mem, kind, first⟩ := accesses
  obtain ⟨old, rfl, inBlock | before⟩ := mem_stmts_expanded mem s
  · have oldKind : old.kind = .getGlobal sym := kind
    rcases kind_of_mem_block inBlock with ⟨-, defs⟩ | ⟨isLoad, -⟩ | ⟨-, -, noSymbol⟩
    · rw [Stmt.defs_rewire, defs] at first
      exact Or.inl (Option.some.inj first).symm
    · rw [isLoad] at oldKind
      cases oldKind
    · rw [oldKind] at noSymbol
      cases noSymbol
  · exact Or.inr ⟨old, before, kind, first⟩

/-- A use of a statement, before it was rewired. -/
theorem eq_of_head?_rewire (site : Site config c s parts r n)
    (closed : (c.ahead [s]).outline.Closed) {old : Stmt}
    (mem : old ∈ (c.ahead [s]).outline.stmts) {v : ValueId} (below : v < n + 2)
    (first : (old.rewire (swap r (blockResult config.wide parts n))).operands.head? = some v) :
    old.operands.head? = some v ∧ v < n := by
  rw [Stmt.rewire, List.head?_map, Option.map_eq_some_iff] at first
  obtain ⟨before, isFirst, rfl⟩ := first
  rcases Outline.mem_defs_of_scoped closed.inScope mem (List.mem_of_mem_head? isFirst) with
    defined | absurd
  · obtain ⟨same, small⟩ := site.swap_eq_of_lt defined below
    rw [same]
    exact ⟨isFirst, small⟩
  · cases absurd

theorem loads_expanded (site : Site config c s parts r n)
    (closed : (c.ahead [s]).outline.Closed) {v : ValueId} {cell : Cell}
    (loads : (expanded config c parts r n).Loads v cell) :
    v = n + 1 ∨ (c.ahead [s]).outline.Loads v cell := by
  obtain ⟨t, mem, kind, first, ref, sym, operand, accesses, stored⟩ := loads
  obtain ⟨old, rfl, inBlock | before⟩ := mem_stmts_expanded mem s
  · have oldKind : old.kind = .load := kind
    rcases kind_of_mem_block inBlock with ⟨isAccess, -⟩ | ⟨-, defs⟩ | ⟨notLoad, -⟩
    · rw [isAccess] at oldKind
      cases oldKind
    · rw [Stmt.defs_rewire, defs] at first
      exact Or.inl (Option.some.inj first).symm
    · exact absurd oldKind notLoad
  · rw [Outline.cells_congr site.cellEntries_expanded] at stored
    rcases accesses_expanded accesses s with rfl | accessesOld
    · have small := (site.eq_of_head?_rewire closed before (Nat.lt_add_of_pos_right (by decide))
        operand).2
      exact absurd small (Nat.lt_irrefl _)
    · have below := Nat.lt_add_right 2 (site.fresh ref accessesOld.mem_defs)
      exact Or.inr ⟨old, before, kind, first, ref, sym,
        (site.eq_of_head?_rewire closed before below operand).1, accessesOld, stored⟩

theorem lawful_expanded (site : Site config c s parts r n)
    (lawful : (c.ahead [s]).outline.Lawful config) : (expanded config c parts r n).Lawful config where
  closed := (Outline.Step.expand site).closed lawful.closed
  single := by
    rw [site.cellEntries_expanded]
    exact lawful.single
  defined := by
    intro t mem access
    obtain ⟨cell, isDefined, -⟩ := lawful.counter site.counter
    rw [Outline.cells_congr site.cellEntries_expanded, isDefined]
    exact Option.some_ne_none cell
  deltas := by
    intro t mem kind delta cell operands loads
    obtain ⟨old, rfl, inBlock | before⟩ := mem_stmts_expanded mem s
    · have oldKind : old.kind = .rngUpdate := kind
      rcases kind_of_mem_block inBlock with ⟨other, -⟩ | ⟨other, -⟩ | ⟨-, other, -⟩
      · rw [other] at oldKind
        cases oldKind
      · rw [other] at oldKind
        cases oldKind
      · exact absurd oldKind other
    · have first := congrArg List.head? operands
      have oldLoads : (c.ahead [s]).outline.Loads delta cell := by
        rcases site.loads_expanded lawful.closed loads with rfl | oldLoads
        · have small := (site.eq_of_head?_rewire lawful.closed before (Nat.lt_succ_self _) first).2
          exact absurd (Nat.lt_trans (Nat.lt_succ_self n) small) (Nat.lt_irrefl _)
        · exact oldLoads
      have below := Nat.lt_add_right 2 (site.fresh delta oldLoads.mem_defs)
      have oldOperands : old.operands = [delta] := by
        have isFirst := (site.eq_of_head?_rewire lawful.closed before below first).1
        have count : old.operands.length = 1 := by
          simpa [Stmt.rewire] using congrArg List.length operands
        obtain ⟨only, isOnly⟩ := List.length_eq_one_iff.mp count
        rw [isOnly, List.head?_cons, Option.some.injEq] at isFirst
        rw [isOnly, isFirst]
      have declared := lawful.deltas old before kind delta cell oldOperands oldLoads
      rw [expanded, Outline.typed_rewire, Cursor.mem_typed_ahead]
      rcases Cursor.mem_typed_ahead.mp declared with result | outside
      · simp only [List.flatMap_cons, List.flatMap_nil, List.append_nil, site.proper.results,
          List.mem_singleton] at result
        cases result
      · exact Or.inr outside

end StateUpdate.Site

theorem Outline.lawful_create (valid : config.validate = .ok ()) (lawful : o.Lawful config)
    (undefined : ∀ item ∈ o, item.kind.defines config.stateSymbol = false) :
    Outline.Lawful config (.op config.counterStmt :: o) where
  closed := (Outline.Step.create undefined).closed lawful.closed
  single := by
    have missing : o.cellEntries.filter (·.1 = config.stateSymbol) = [] := by
      rw [List.filter_eq_nil_iff]
      rintro ⟨sym, cell⟩ mem named
      obtain ⟨item, inside, defines⟩ := defines_of_mem_cellEntries mem
      have isCounter : sym = config.stateSymbol := of_decide_eq_true named
      rw [isCounter, undefined item inside] at defines
      cases defines
    rw [cellEntries_cons_counterStmt, List.filter_cons, missing]
    simp
  defined := by
    intro s mem access
    rw [lookup_cells, cellEntries_cons_counterStmt, List.reverse_cons, List.lookup_append]
    simp
  deltas := by
    have old : ∀ s ∈ stmts (.op config.counterStmt :: o), s = config.counterStmt ∨ s ∈ o.stmts :=
      fun s mem => List.mem_cons.mp mem
    rintro s mem kind delta cell operands
      ⟨load, inLoad, isLoad, first, ref, sym, operand, ⟨access, inAccess, isAccess, firstAccess⟩, stored⟩
    rcases old s mem with rfl | oldUpdate
    · cases kind
    rcases old load inLoad with rfl | oldLoad
    · cases isLoad
    rcases old access inAccess with rfl | oldAccess
    · cases isAccess
    have notCounter : sym ≠ config.stateSymbol := by
      rintro rfl
      exact lawful.defined access oldAccess isAccess (lookup_cells_of_undefined undefined)
    rw [(cellsAgree_cons_counterStmt valid undefined).lookup_of_ne notCounter] at stored
    exact lawful.deltas s oldUpdate kind delta cell operands ⟨load, oldLoad, isLoad, first, ref, sym,
      operand, ⟨access, oldAccess, isAccess, firstAccess⟩, stored⟩

/-- What a run of steps keeps. -/
theorem Outline.simulates_of_steps (valid : config.validate = .ok ()) (lawful : o.Lawful config)
    (steps : Relation.ReflTransGen (Outline.Step config) o after) :
    o.Simulates config after ∧ after.Lawful config := by
  induction steps with
  | refl => exact ⟨.refl config o, lawful⟩
  | tail _ step ih =>
    obtain ⟨simulates, lawfulMiddle⟩ := ih
    cases step with
    | create undefined =>
      exact ⟨simulates.trans (simulates_create valid lawfulMiddle undefined),
        lawful_create valid lawfulMiddle undefined⟩
    | expand site =>
      exact ⟨simulates.trans (site.simulates valid lawfulMiddle), site.lawful_expanded lawfulMiddle⟩

end

namespace Program

def heldOps (p : Program) : List Op := p.liveOps.map Prod.snd

def cellsNamed (p : Program) (sym : String) : List (String × Cell) :=
  (p.body.filterMap (Machine.cellOf? p)).filter (·.1 = sym)

def accessed? (p : Program) (access : Op) : Option Cell :=
  match access.kind with
  | .getGlobal sym => (Machine.ofProgram p).cell? sym
  | _ => none

/-- If the delta of a state update is what a load reads from the cell that an access gives, then it is
declared with the type of the cell. -/
def DeltaTyped (p : Program) (update load access : Op) : Prop :=
  update.kind = .rngUpdate → load.kind = .load →
    ∀ delta ∈ update.operands.head?, load.results.head? = some delta →
    ∀ ref ∈ load.operands.head?, access.results.head? = some ref →
    ∀ cell ∈ p.accessed? access, p.typeOf delta = .ok (.int cell.elem)

instance (p : Program) (update load access : Op) : Decidable (p.DeltaTyped update load access) :=
  inferInstanceAs (Decidable (update.kind = .rngUpdate → load.kind = .load → _))

/-- A program whose counter is one cell at most, and which loads no delta under another type than that
of the cell. -/
structure Lawful (config : Config) (p : Program) : Prop where
  /-- The body defines the counter once at most. -/
  single : (p.cellsNamed config.stateSymbol).length ≤ 1
  /-- The counter is not accessed as a cell unless the body defines it. -/
  defined : ∀ op ∈ p.heldOps, op.kind = .getGlobal config.stateSymbol →
    p.cellsNamed config.stateSymbol ≠ []
  deltas : ∀ update ∈ p.heldOps, ∀ load ∈ p.heldOps, ∀ access ∈ p.heldOps,
    p.DeltaTyped update load access

instance (config : Config) (p : Program) : Decidable (p.Lawful config) :=
  decidable_of_iff
    ((p.cellsNamed config.stateSymbol).length ≤ 1 ∧
      (∀ op ∈ p.heldOps, op.kind = .getGlobal config.stateSymbol →
        p.cellsNamed config.stateSymbol ≠ []) ∧
      ∀ update ∈ p.heldOps, ∀ load ∈ p.heldOps, ∀ access ∈ p.heldOps,
        p.DeltaTyped update load access)
    ⟨fun ⟨single, defined, deltas⟩ => ⟨single, defined, deltas⟩,
      fun lawful => ⟨lawful.single, lawful.defined, lawful.deltas⟩⟩

theorem exists_op_of_mem_stmts {p : Program} {o : Outline} (rep : p.Represents o) {s : Stmt}
    (mem : s ∈ o.stmts) :
    ∃ op ∈ p.heldOps, op.kind = s.kind ∧ op.operands = s.operands ∧ op.results = s.defs := by
  have held : ∀ parent id, id ∈ p.walk → p.HoldsStmt parent id s →
      ∃ op ∈ p.heldOps, op.kind = s.kind ∧ op.operands = s.operands ∧ op.results = s.defs := by
    intro parent id inWalk holds
    obtain ⟨loc, found⟩ := holds.op
    refine ⟨s.toOp parent loc, List.mem_map.mpr ⟨(id, s.toOp parent loc), ?_, rfl⟩, rfl, rfl, rfl⟩
    exact List.mem_filterMap.mpr ⟨id, inWalk, by rw [found]; rfl⟩
  obtain ⟨item, inside, inItem⟩ := List.mem_flatMap.mp mem
  obtain ⟨id, inBody, holds⟩ := forall₂_exists_of_mem rep.items.flip inside
  cases item with
  | op t =>
    cases List.mem_singleton.mp inItem
    exact held none id ((mem_walk rep id).mpr (Or.inl inBody)) holds
  | func sym params body =>
    obtain ⟨region, func⟩ := holds
    obtain ⟨loc, found⟩ := func.op
    obtain ⟨inner, inRegion, stmt⟩ := forall₂_exists_of_mem func.body.flip inItem
    refine held (some id) inner ((mem_walk rep inner).mpr (Or.inr ⟨id, inBody, _, found, ?_⟩)) stmt
    exact inRegion

theorem cellsNamed_eq {p : Program} {o : Outline} (rep : p.Represents o) (sym : String) :
    p.cellsNamed sym = o.cellEntries.filter (·.1 = sym) := by
  rw [cellsNamed, Machine.filterMap_cellOf? rep]
  rfl

/-- The outline of a lawful program is lawful. -/
theorem Lawful.outline {config : Config} {p : Program} (lawful : p.Lawful config) {o : Outline}
    (rep : p.Represents o) (closed : o.Closed) : o.Lawful config where
  closed := closed
  single := cellsNamed_eq rep config.stateSymbol ▸ lawful.single
  defined := by
    intro s mem access
    obtain ⟨op, held, kind, -⟩ := exists_op_of_mem_stmts rep mem
    have named := lawful.defined op held (kind.trans access)
    rw [cellsNamed_eq rep] at named
    obtain ⟨⟨sym, cell⟩, inside⟩ := List.exists_mem_of_ne_nil _ named
    obtain ⟨listed, isCounter⟩ := List.mem_filter.mp inside
    cases of_decide_eq_true isCounter
    exact Outline.lookup_cells_ne_none listed
  deltas := by
    rintro s mem isUpdate delta cell operands
      ⟨load, inLoad, isLoad, first, ref, sym, operand, ⟨access, inAccess, isAccess, firstAccess⟩, stored⟩
    obtain ⟨updateOp, heldUpdate, updateKind, updateOperands, -⟩ := exists_op_of_mem_stmts rep mem
    obtain ⟨loadOp, heldLoad, loadKind, loadOperands, loadResults⟩ := exists_op_of_mem_stmts rep inLoad
    obtain ⟨accessOp, heldAccess, accessKind, -, accessResults⟩ := exists_op_of_mem_stmts rep inAccess
    have reads : p.accessed? accessOp = some cell := by
      rw [accessed?, accessKind, isAccess]
      change (Machine.ofProgram p).cells.lookup sym = some cell
      rw [Machine.cells_ofProgram rep, stored]
    have declared := lawful.deltas updateOp heldUpdate loadOp heldLoad accessOp heldAccess
      (updateKind.trans isUpdate) (loadKind.trans isLoad) delta (by simp [updateOperands, operands])
      (by rw [loadResults, first]) ref (by rw [loadOperands, operand]; rfl)
      (by rw [accessResults, firstAccess]) cell reads
    have defined := Outline.mem_defs_of_mem_stmts inLoad (List.mem_of_mem_head? first)
    rw [← Outline.map_fst_typed] at defined
    obtain ⟨⟨v, ty⟩, typed, rfl⟩ := List.mem_map.mp defined
    rw [rep.types _ _ typed] at declared
    cases declared
    exact typed

end Program

/-- Lowering keeps what a lawful program computes, however it ends: every sequence of calls has the same
answers before and after it. The cells agree after each call, except that the counter may be missing
before the lowering where it holds the seed after it. -/
theorem session_lower {file text : String} {p : Program} (read : Program.ofText file text = .ok p)
    {config : Config} (valid : config.validate = .ok ()) (lawful : p.Lawful config)
    (calls : List (String × List Nat)) :
    List.Forall₂ (fun before after => after.1 = before.1 ∧
        CellsAgree config before.2.cells after.2.cells)
      (Evaluator.session ⟨p, config⟩ (Machine.ofProgram p) calls)
      (Evaluator.session ⟨(lower config p).program, config⟩
        (Machine.ofProgram (lower config p).program) calls) := by
  obtain ⟨o, isText⟩ := Program.exists_isText_of_ofText read
  obtain ⟨ids, expands⟩ := Lowering.exists_expands_lower (Lowering.ready_of_isText isText) config
  obtain ⟨-, after, rep, steps⟩ := expands.outline isText.represents
  have closed : o.Closed := ⟨nodup_of_numbered isText.numbered, isText.closed⟩
  obtain ⟨simulates, -⟩ := Outline.simulates_of_steps valid
    (lawful.outline isText.represents closed) steps
  have sessions := simulates calls
  rw [← Machine.cells_ofProgram isText.represents, ← Machine.cells_ofProgram rep,
    ← Evaluator.session_outcome isText.represents, ← Evaluator.session_outcome rep,
    List.forall₂_map_left_iff, List.forall₂_map_right_iff] at sessions
  exact sessions

/-- A delta that is loaded, and a state update that does not fit an 8-bit counter: the lowering fails
there, and so do the calls that reach it, after they have advanced the counter. -/
theorem session_lower_loaded :
    ∃ p, Program.ofText "in" "memref.global @step \x7binit = 250\x7d : memref<si8>
      func.func @f(%d: si4) \x7b
      %a = mhlo.rng_get_and_update_state %d : tensor<2xui4>
      func.return %a\x7d
      func.func @g() \x7b
      %c = memref.get_global @step : memref<si8>
      %d = memref.load %c : si8
      %a = mhlo.rng_get_and_update_state %d : tensor<2xi3>
      %b = mhlo.rng_get_and_update_state %d : tensor<3xi3>\x7d" = .ok p ∧
      p.Lawful ⟨"s", 8, 200, .full⟩ ∧
      List.Forall₂ (fun before after => after.1 = before.1 ∧
          CellsAgree ⟨"s", 8, 200, .full⟩ before.2.cells after.2.cells)
        (Evaluator.session ⟨p, ⟨"s", 8, 200, .full⟩⟩ (Machine.ofProgram p)
          [("h", []), ("f", [9]), ("g", []), ("f", [7])])
        (Evaluator.session ⟨(lower ⟨"s", 8, 200, .full⟩ p).program, ⟨"s", 8, 200, .full⟩⟩
          (Machine.ofProgram (lower ⟨"s", 8, 200, .full⟩ p).program)
          [("h", []), ("f", [9]), ("g", []), ("f", [7])]) := by
  obtain ⟨p, read, lawful⟩ :
      ∃ p, Program.ofText "in" "memref.global @step \x7binit = 250\x7d : memref<si8>
      func.func @f(%d: si4) \x7b
      %a = mhlo.rng_get_and_update_state %d : tensor<2xui4>
      func.return %a\x7d
      func.func @g() \x7b
      %c = memref.get_global @step : memref<si8>
      %d = memref.load %c : si8
      %a = mhlo.rng_get_and_update_state %d : tensor<2xi3>
      %b = mhlo.rng_get_and_update_state %d : tensor<3xi3>\x7d" = .ok p ∧
      p.Lawful ⟨"s", 8, 200, .full⟩ := by
    apply Program.exists_of_chars
    decide +kernel
  exact ⟨p, read, lawful, session_lower read (by decide) lawful _⟩

end RngLowering
