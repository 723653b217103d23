import RngLowering.Proofs.CounterCell

set_option autoImplicit false

namespace RngLowering

/-- The value is a result of the operation, or one of its arguments if it is a function. -/
def Op.Defines (op : Op) (v : ValueId) : Prop :=
  v ∈ op.results ∨ op.kind.isFunc = true ∧ v ∈ op.args

namespace Program

def Precedes (p : Program) (d id : OpId) : Prop :=
  ∃ front back, p.walk = front ++ id :: back ∧ d ∈ front

/-- Some of these operations define the values. In a function, values are its arguments and the results
of its operations. -/
def Supplies (p : Program) (owner : Option OpId) (seen : List OpId) (values : List ValueId) : Prop :=
  ∀ v ∈ values, ∃ d ∈ seen, ∃ op, p.op? d = some op ∧ op.Defines v ∧
    ∀ func, owner = some func → d = func ∧ v ∈ op.args ∨ op.parent = some func

structure DefinedBeforeUse (p : Program) : Prop where
  /-- No operation comes before itself. -/
  once : p.walk.Nodup
  uses : ∀ id op, p.op? id = some op → ∀ v ∈ op.operands, ∃ d made, p.op? d = some made ∧
    made.Defines v ∧ p.Precedes d id ∧
    ∀ func, op.parent = some func → d = func ∧ v ∈ made.args ∨ made.parent = some func
  /-- The table does not lead from a use to an operation that is gone. -/
  live : ∀ id op, p.op? id = some op → ∀ v ∈ op.operands, ∀ ty d index,
    p.value? v = some ⟨ty, .result d index⟩ → p.isLive d = true

section

variable {p : Program} {owner : Option OpId} {seen : List OpId} {values : List ValueId}

theorem Supplies.mono (supplies : p.Supplies owner seen values) {more : List OpId}
    (inside : seen ⊆ more) : p.Supplies owner more values := by
  intro v mem
  obtain ⟨d, isSeen, rest⟩ := supplies v mem
  exact ⟨d, inside isSeen, rest⟩

/-- At the top level, it does not matter where a value is defined. -/
theorem Supplies.anywhere (supplies : p.Supplies owner seen values) : p.Supplies none seen values := by
  intro v mem
  obtain ⟨d, isSeen, op, found, defines, -⟩ := supplies v mem
  exact ⟨d, isSeen, op, found, defines, fun func same => by cases same⟩

/-- Operations in order: the ones before each operation define what it uses. -/
def AllSupplied (p : Program) : List OpId → List OpId → Prop
  | _, [] => True
  | seen, id :: rest =>
    (∀ op, p.op? id = some op → p.Supplies op.parent seen op.operands) ∧
      p.AllSupplied (seen ++ [id]) rest

theorem allSupplied_append {first second : List OpId} :
    p.AllSupplied seen (first ++ second) ↔
      p.AllSupplied seen first ∧ p.AllSupplied (seen ++ first) second := by
  induction first generalizing seen with
  | nil => simp [AllSupplied]
  | cons id rest ih =>
    simp only [List.cons_append, AllSupplied, ih, and_assoc, List.append_assoc, List.nil_append]

variable {id : OpId} {s : Stmt}

theorem HoldsStmt.supplied (holds : p.HoldsStmt owner id s) (supplies : p.Supplies owner seen values)
    (closed : s.Scoped values) {op : Op} (found : p.op? id = some op) :
    p.Supplies op.parent seen op.operands := by
  obtain ⟨loc, here⟩ := holds.op
  rw [found] at here
  cases here
  exact fun v used => supplies v (closed v used)

/-- After a statement, what it defines is in scope too. -/
theorem HoldsStmt.supplies_after (holds : p.HoldsStmt owner id s)
    (supplies : p.Supplies owner seen values) :
    p.Supplies owner (seen ++ [id]) (s.scopeAfter values) := by
  intro v mem
  rcases Stmt.mem_scopeAfter.mp mem with now | before
  · obtain ⟨loc, here⟩ := holds.op
    exact ⟨id, by simp, _, here, Or.inl now, fun func same => Or.inr same⟩
  · exact supplies.mono (List.subset_append_left seen [id]) v before

/-- The statements of a region in order. -/
theorem allSupplied_region {region : List OpId} {body : List Stmt}
    (holds : List.Forall₂ (p.HoldsStmt owner) region body) (supplies : p.Supplies owner seen values)
    (closed : Stmt.AllScoped values body) :
    p.AllSupplied seen region ∧
      p.Supplies owner (seen ++ region) (Stmt.scopeAfterAll values body) := by
  -- what is in scope grows along with what was seen
  induction holds generalizing seen values with
  | nil => simpa [AllSupplied, Stmt.scopeAfterAll] using supplies
  | @cons id s region body head rest ih =>
    obtain ⟨supplied, after⟩ := ih (head.supplies_after supplies) closed.2
    refine ⟨⟨fun op => head.supplied supplies closed.1, supplied⟩, ?_⟩
    rw [List.append_cons]
    exact after

/-- The parameters of a function are defined by it. -/
theorem HoldsFunc.supplies {sym : String} {params : List (ValueId × Ty)} {body : List Stmt}
    {region : List OpId} (holds : p.HoldsFunc id sym params body region) :
    p.Supplies (some id) (seen ++ [id]) (Item.paramScope params) := by
  intro v mem
  obtain ⟨loc, here⟩ := holds.op
  have param : v ∈ params.map Prod.fst := List.mem_reverse.mp mem
  exact ⟨id, by simp, _, here, Or.inr ⟨rfl, param⟩,
    fun func same => Or.inl ⟨Option.some.inj same, param⟩⟩

/-- An item and what is nested in it. -/
theorem HoldsItem.allSupplied {item : Item} (holds : p.HoldsItem id item)
    (supplies : p.Supplies none seen values) (closed : item.Scoped values) :
    p.AllSupplied seen (id :: p.nested id) ∧
      p.Supplies none (seen ++ id :: p.nested id) (item.scopeAfter values) := by
  cases item with
  | op s =>
    have stmt : p.HoldsStmt none id s := holds
    have nested : p.nested id = [] := by
      obtain ⟨loc, here⟩ := stmt.op
      simp [Program.nested, here, Stmt.toOp]
    rw [nested]
    exact ⟨⟨fun op => stmt.supplied supplies closed, trivial⟩, stmt.supplies_after supplies⟩
  | func sym params body =>
    obtain ⟨region, func⟩ := holds
    obtain ⟨loc, here⟩ := func.op
    have nested : p.nested id = region := by simp [Program.nested, here, funcOp]
    have params : p.Supplies (some id) (seen ++ [id]) (Item.paramScope params) := func.supplies
    obtain ⟨supplied, after⟩ := allSupplied_region func.body params closed
    rw [nested, List.append_cons]
    refine ⟨⟨fun op found => ?_, supplied⟩, after.anywhere⟩
    rw [here] at found
    cases found
    exact fun v used => absurd used List.not_mem_nil

theorem allSupplied_items {ids : List OpId} {o : Outline} (holds : List.Forall₂ p.HoldsItem ids o)
    (supplies : p.Supplies none seen values) (closed : o.Scoped values) :
    p.AllSupplied seen (ids.flatMap fun id => id :: p.nested id) := by
  induction holds generalizing seen values with
  | nil => trivial
  | cons head rest ih =>
    obtain ⟨supplied, after⟩ := head.allSupplied supplies closed.1
    rw [List.flatMap_cons, allSupplied_append]
    exact ⟨supplied, ih after closed.2⟩

theorem AllSupplied.supplies {ids front back : List OpId} (supplied : p.AllSupplied [] ids)
    (split : ids = front ++ id :: back) {op : Op} (found : p.op? id = some op) :
    p.Supplies op.parent front op.operands := by
  rw [split, allSupplied_append] at supplied
  simpa using supplied.2.1 op found

end

/-- What defines a value is where the table leads. -/
theorem WellFormed.eq_of_defines {p : Program} (wf : p.WellFormed) {d other : OpId} {op : Op}
    (found : p.op? d = some op) {v : ValueId} (defines : op.Defines v) {ty : Ty} {index : Nat}
    (entry : p.value? v = some ⟨ty, .result other index⟩) : other = d := by
  rcases defines with result | ⟨-, arg⟩
  · obtain ⟨_, _, here⟩ := wf.value?_of_mem_results found result
    rw [entry] at here
    cases here
    rfl
  · obtain ⟨_, _, here⟩ := wf.value?_of_mem_args found arg
    rw [entry] at here
    cases here

/-- If every use of an outline is in scope, then definitions come before uses in its programs. -/
theorem Represents.definedBeforeUse {p : Program} {o : Outline} (rep : p.Represents o)
    (wf : p.WellFormed) (closed : o.Scoped []) : p.DefinedBeforeUse := by
  have supplied : p.AllSupplied [] p.walk := by
    rw [walk_eq rep]
    exact allSupplied_items rep.items (fun v mem => by cases mem) closed
  have uses : ∀ id op, p.op? id = some op → ∀ v ∈ op.operands, ∃ d made, p.op? d = some made ∧
      made.Defines v ∧ p.Precedes d id ∧
      ∀ func, op.parent = some func → d = func ∧ v ∈ made.args ∨ made.parent = some func := by
    intro id op found v used
    obtain ⟨front, back, split⟩ := List.append_of_mem (wf.mem_walk_of_op? found)
    obtain ⟨d, before, made, here, defines, inside⟩ := supplied.supplies split found v used
    exact ⟨d, made, here, defines, ⟨front, back, split, before⟩, inside⟩
  refine ⟨wf.nodup_walk, uses, fun id op found v used ty d index entry => ?_⟩
  obtain ⟨other, made, here, defines, -⟩ := uses id op found v used
  rw [wf.eq_of_defines here defines entry]
  exact isLive_iff.mpr ⟨made, here⟩

end Program

namespace Lowering

variable {p q : Program}

/-- Values that stay typed have the same types. -/
theorem exists_types {before after : List ValueId}
    (same : List.Forall₂ (fun v w => ∀ ty, p.typeOf v = .ok ty → q.typeOf w = .ok ty) before after)
    (typed : ∀ v ∈ before, ∃ ty, p.typeOf v = .ok ty) :
    ∃ types : List Ty, before.map p.typeOf = types.map .ok ∧ after.map q.typeOf = types.map .ok := by
  induction same with
  | nil => exact ⟨[], rfl, rfl⟩
  | @cons v w before after head rest ih =>
    obtain ⟨ty, here⟩ := typed v (by simp)
    obtain ⟨types, first, second⟩ := ih fun v mem => typed v (by simp [mem])
    exact ⟨ty :: types, by simp [here, first], by simp [head ty here, second]⟩

end Lowering

open Lowering in
/-- In a program that is read from a text and in what a lowering leaves of it, definitions come before
uses. What the operands of an operation stand for may change, but not their types. -/
theorem definedBeforeUse_lower {name text : String} {p : Program}
    (read : Program.ofText name text = .ok p) (config : Config) :
    p.DefinedBeforeUse ∧ (lower config p).program.DefinedBeforeUse ∧
      ∀ id op kept, p.op? id = some op → (lower config p).program.op? id = some kept →
        ∃ types : List Ty, op.operands.map p.typeOf = types.map .ok ∧
          kept.operands.map (lower config p).program.typeOf = types.map .ok := by
  obtain ⟨o, isText⟩ := Program.exists_isText_of_ofText read
  have ready := ready_of_isText isText
  have wf : p.WellFormed := Program.wellFormed_of_build isText.numbered isText.built
  obtain ⟨ids, expands⟩ := exists_expands_lower ready config
  obtain ⟨-, after, rep, steps⟩ := expands.outline isText.represents
  have closed := Outline.closed_of_steps steps ⟨nodup_of_numbered isText.numbered, isText.closed⟩
  refine ⟨isText.represents.definedBeforeUse wf isText.closed,
    rep.definedBeforeUse (expands.shares wf).wellFormed closed.inScope, ?_⟩
  intro id op kept found here
  have keeps := expands.keeps isText.represents
  have stays : id ∉ ids := by
    intro gone
    rw [(keeps.gone id gone).2] at here
    cases here
  obtain ⟨again, foundAgain, same⟩ := keeps.ops id op found stays
  rw [here] at foundAgain
  cases foundAgain
  refine exists_types same.operands fun v used => ?_
  exact ready.typed id (wf.mem_walk_of_op? found) op found v (by simp [used])

/-- The result of the first state update becomes the operand of the second one, by way of an operation
that stays. -/
theorem definedBeforeUse_lower_chain :
    ∃ p kept v d made, Program.ofText "in" "func.func @f(%d: i32) \x7b
      %a = mhlo.rng_get_and_update_state %d : tensor<2xui32>
      %e = test.pick %a : i32
      %b = mhlo.rng_get_and_update_state %e : tensor<2xui32>\x7d" = .ok p ∧
      (lower {} p).program.op? 1 = none ∧ (lower {} p).program.op? 2 = some kept ∧
      kept.operands = [v] ∧ (lower {} p).program.op? d = some made ∧ made.Defines v ∧
      (lower {} p).program.Precedes d 2 ∧
      (lower {} p).program.typeOf v = .ok (.tensor [2] ⟨32, .unsigned⟩) := by
  obtain ⟨p, read, first, declared, gone, live⟩ : ∃ p, Program.ofText "in" "func.func @f(%d: i32) \x7b
      %a = mhlo.rng_get_and_update_state %d : tensor<2xui32>
      %e = test.pick %a : i32
      %b = mhlo.rng_get_and_update_state %e : tensor<2xui32>\x7d" = .ok p ∧
      (p.op? 2).any (fun op => op.operands = [1]) = true ∧
      p.value? 1 = some ⟨.tensor [2] ⟨32, .unsigned⟩, .result 1 0⟩ ∧
      (lower {} p).program.op? 1 = none ∧ (lower {} p).program.isLive 2 = true := by
    apply Program.exists_of_chars
    decide +kernel
  obtain ⟨op, found, operands⟩ := Option.any_eq_true .. |>.mp first
  obtain ⟨kept, foundKept⟩ := Program.isLive_iff.mp live
  obtain ⟨-, after, sameTypes⟩ := definedBeforeUse_lower read {}
  obtain ⟨types, before, later⟩ := sameTypes 2 op kept found foundKept
  have typed := Program.typeOf_eq_ok.mpr ⟨_, declared⟩
  rw [of_decide_eq_true operands, List.map_singleton, typed] at before
  rw [← before] at later
  obtain ⟨v, only, isTyped⟩ := List.map_eq_singleton_iff.mp later
  obtain ⟨d, made, foundMade, defines, precedes, -⟩ := after.uses 2 kept foundKept v (by simp [only])
  exact ⟨p, kept, v, d, made, read, gone, foundKept, only, foundMade, defines, precedes, isTyped⟩

end RngLowering
