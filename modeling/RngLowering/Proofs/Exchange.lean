import RngLowering.Proofs.Emission

set_option autoImplicit false

namespace RngLowering

theorem filter_ne_of_not_mem {id : OpId} {ids : List OpId} (missing : id ∉ ids) :
    ids.filter (· ≠ id) = ids :=
  List.filter_eq_self.mpr fun _ mem => decide_eq_true fun same => missing (same ▸ mem)

theorem filter_ne_append_cons {id : OpId} {front back : List OpId}
    (nodup : (front ++ id :: back).Nodup) : (front ++ id :: back).filter (· ≠ id) = front ++ back := by
  obtain ⟨-, nodupBack, apart⟩ := List.nodup_append.mp nodup
  rw [List.filter_append, List.filter_cons_of_neg (by simp),
    filter_ne_of_not_mem fun mem => apart id mem id List.mem_cons_self rfl,
    filter_ne_of_not_mem (List.nodup_cons.mp nodupBack).1]

namespace Program

/-- The program with statements in the place of an operation, and a value in the place of another
one. -/
def exchange (p : Program) (id : OpId) (op : Op) (index : Nat) (stmts : List Stmt)
    (old new : ValueId) : Program :=
  ((p.place op.parent op.loc index stmts).replaceUses old new).without id (op.replaceUse old new)

section

variable {p : Program} {id : OpId} {op : Op} {index : Nat} {stmts : List Stmt} {old new : ValueId}
  {front back : List OpId}

theorem size_ops_exchange :
    (p.exchange id op index stmts old new).ops.size = p.ops.size + stmts.length := by
  simp only [exchange, without, size_ops_clear, size_ops_modifyRegion, size_ops_replaceUses,
    size_ops_place]

theorem value?_exchange (v : ValueId) :
    (p.exchange id op index stmts old new).value? v =
      (p.place op.parent op.loc index stmts).value? v := by
  simp only [value?, exchange, without, clear, values_modifyRegion, replaceUses]

theorem typeOf_exchange (v : ValueId) :
    (p.exchange id op index stmts old new).typeOf v =
      (p.place op.parent op.loc index stmts).typeOf v :=
  typeOf_congr (value?_exchange v)

/-- An operation encloses no more than it did if nothing new is in what it encloses. -/
theorem WellFormed.encloses_of_old {q : Program} {child : OpId} (wf : q.WellFormed)
    (old : ∀ parent child, id ≤ parent → q.IsParent parent child → p.IsParent parent child)
    (encloses : q.Encloses id child) : p.Encloses id child := by
  induction encloses with
  | refl => exact .refl
  | tail above isParent ih => exact ih.tail (old _ _ (wf.le_of_encloses above) isParent)

/-- An operation does not enclose its own region's owner. -/
theorem WellFormed.parent_ne (wf : p.WellFormed) (found : p.op? id = some op) :
    op.parent ≠ some id := by
  intro same
  exact Nat.lt_irrefl id (wf.older id op id found same)

/-- The operation is there as it was when it is erased. -/
theorem op?_rewired (wf : p.WellFormed) (found : p.op? id = some op) (index : Nat)
    (stmts : List Stmt) (old new : ValueId) :
    ((p.place op.parent op.loc index stmts).replaceUses old new).op? id =
      some (op.replaceUse old new) := by
  rw [op?_replaceUses, op?_place_other (wf.parent_ne found) found op.loc index stmts]
  rfl

theorem WellFormed.rewired (wf : p.WellFormed) (held : ∃ region, p.region op.parent = .ok region) :
    ((p.place op.parent op.loc index stmts).replaceUses old new).WellFormed :=
  (wf.place held).replaceUses old new

theorem WellFormed.exchange (wf : p.WellFormed) (found : p.op? id = some op)
    (held : ∃ region, p.region op.parent = .ok region) :
    (p.exchange id op index stmts old new).WellFormed :=
  (wf.rewired held).without (op?_rewired wf found index stmts old new)

/-- Replacing an operation by a value, with statements put before it. -/
theorem replace_place (wf : p.WellFormed) (found : p.op? id = some op) (results : op.results = [old]) :
    (p.place op.parent op.loc index stmts).replace id [new] =
      .ok (p.exchange id op index stmts old new) := by
  have placed := op?_place_other (wf.parent_ne found) found op.loc index stmts
  have here := op?_rewired wf found index stmts old new
  have erased := erase_eq here ((wf.rewired (wf.exists_region found)).exists_region here)
  simp only [Program.replace, placed, results, List.zip_cons_cons, List.zip_nil_right, List.foldl_cons, List.foldl_nil, erased]
  rfl

/-- An operation of the program was there before, or is one of the statements. -/
theorem op?_of_exchange (wf : p.WellFormed) (found : p.op? id = some op)
    (held : ∃ region, p.region op.parent = .ok region)
    (numbered : NumberedFrom p.values.size (stmts.flatMap Stmt.defs)) {other : OpId} {kept : Op}
    (here : (p.exchange id op index stmts old new).op? other = some kept) :
    other ≠ id ∧ ((∃ before inside, p.op? other = some before ∧
        kept = { before.replaceUse old new with region := inside }) ∨
      p.ops.size ≤ other ∧ ∃ s ∈ stmts, ∃ inside,
        kept = { (s.toOp op.parent op.loc).replaceUse old new with region := inside }) := by
  obtain ⟨outside, rewired, foundRewired, inside, rfl⟩ := op?_of_without here
  have apart : other ≠ id := by
    rintro rfl
    exact outside (((wf.rewired held).mem_subtree (op?_rewired wf found index stmts old new)).mpr .refl)
  refine ⟨apart, ?_⟩
  rw [op?_replaceUses] at foundRewired
  obtain ⟨placed, foundPlaced, rfl⟩ := Option.map_eq_some_iff.mp foundRewired
  rcases op?_of_place held numbered foundPlaced with ⟨before, more, foundBefore, rfl⟩ |
    ⟨since, s, mem, rfl⟩
  · exact Or.inl ⟨before, inside, foundBefore, rfl⟩
  · exact Or.inr ⟨since, s, mem, inside, rfl⟩

/-- At the top level, all but the operation itself stay. -/
theorem isLive_exchange (wf : p.WellFormed) (found : p.op? id = some op)
    (held : ∃ region, p.region op.parent = .ok region) {other : OpId} (top : other ∈ p.body)
    (apart : other ≠ id) (index : Nat) (stmts : List Stmt) (old new : ValueId) :
    (p.exchange id op index stmts old new).isLive other = true := by
  obtain ⟨before, foundBefore, noParent⟩ := wf.inside none p.body rfl other top
  obtain ⟨inside, placed⟩ := op?_place_old foundBefore op.parent op.loc index stmts
  have rewired : ((p.place op.parent op.loc index stmts).replaceUses old new).op? other =
      some (({ before with region := inside } : Op).replaceUse old new) := by
    rw [op?_replaceUses, placed]
    rfl
  have outside : other ∉ ((p.place op.parent op.loc index stmts).replaceUses old new).subtree id := by
    intro enclosed
    obtain ⟨parent, isParent, -⟩ := (wf.rewired held).parent_mem_subtree
      (op?_rewired wf found index stmts old new) rewired apart enclosed
    have absurd : before.parent = some parent := isParent
    rw [noParent] at absurd
    cases absurd
  obtain ⟨more, kept⟩ := op?_without_old (op.replaceUse old new) rewired outside
  exact isLive_iff.mpr ⟨_, kept⟩

theorem region_replaceUses (old new : ValueId) (parent : Option OpId) :
    (p.replaceUses old new).region parent = p.region parent := by
  cases parent with
  | none => rfl
  | some owner =>
    simp only [Program.region, op?_replaceUses]
    cases p.op? owner <;> rfl

/-- The region of the operation has the new ones in its place. -/
theorem region_exchange (wf : p.WellFormed)
    (held : p.region op.parent = .ok (front ++ id :: back)) {other : Option OpId}
    {inside : List OpId} (heldOther : p.region other = .ok inside)
    (outside : ∀ owner, other = some owner →
      owner ∉ ((p.place op.parent op.loc front.length stmts).replaceUses old new).subtree id) :
    (p.exchange id op front.length stmts old new).region other =
      .ok (if other = op.parent then front ++ List.range' p.ops.size stmts.length ++ back
        else inside) := by
  have parent : (op.replaceUse old new).parent = op.parent := rfl
  by_cases same : other = op.parent
  · subst same
    have placed := (region_replaceUses old new _).trans (region_place held op.loc stmts)
    rw [exchange, region_without_old placed outside, parent, if_pos rfl, if_pos rfl]
    exact congrArg Except.ok (filter_ne_append_cons
      ((wf.rewired ⟨_, held⟩).nodup op.parent _ placed))
  · have placed := (region_replaceUses old new _).trans
      (region_place_other ⟨_, held⟩ same heldOther op.loc front.length stmts)
    rw [exchange, region_without_old placed outside, parent, if_neg same, if_neg same]

section

variable (wf : p.WellFormed) (found : p.op? id = some op)

include wf found

/-- An operation does not enclose its parent. -/
theorem WellFormed.parent_outside {owner : OpId} (isParent : op.parent = some owner) :
    owner ∉ p.subtree id := by
  intro inside
  have high := wf.le_of_encloses ((wf.mem_subtree found).mp inside)
  exact Nat.not_lt_of_le high (wf.older id op owner found isParent)

variable (held : p.region op.parent = .ok (front ++ id :: back))

include held

theorem region_exchange_self (stmts : List Stmt) (old new : ValueId) :
    (p.exchange id op front.length stmts old new).region op.parent =
      .ok (front ++ List.range' p.ops.size stmts.length ++ back) := by
  rw [region_exchange wf held held, if_pos rfl]
  intro owner isParent
  exact (wf.rewired ⟨_, held⟩).parent_outside (op?_rewired wf found _ _ _ _) isParent

/-- The new operations are the statements. -/
theorem op?_exchange_new (numbered : NumberedFrom p.values.size (stmts.flatMap Stmt.defs))
    {offset : Nat} {s : Stmt} (listed : stmts[offset]? = some s) (old new : ValueId) :
    (p.exchange id op front.length stmts old new).op? (p.ops.size + offset) =
      some ((s.toOp op.parent op.loc).replaceUse old new) := by
  have rewired : ((p.place op.parent op.loc front.length stmts).replaceUses old new).op?
      (p.ops.size + offset) = some ((s.toOp op.parent op.loc).replaceUse old new) := by
    rw [op?_replaceUses, op?_place_new ⟨_, held⟩ numbered listed op.loc front.length]
    rfl
  have wfRewired : ((p.place op.parent op.loc front.length stmts).replaceUses old new).WellFormed :=
    wf.rewired ⟨_, held⟩
  have foundRewired := op?_rewired wf found front.length stmts old new
  have apart : p.ops.size + offset ≠ id :=
    Nat.ne_of_gt (Nat.lt_of_lt_of_le (op?_lt found) (Nat.le_add_right _ _))
  have noParent : op.parent ≠ some (p.ops.size + offset) := by
    intro owner
    rw [owner] at held
    obtain ⟨parent, foundParent, -⟩ := op?_of_region held
    exact Nat.not_lt_of_le (Nat.le_add_right _ _) (op?_lt foundParent)
  -- it is beside the operation that it is for
  have outside := wfRewired.not_mem_subtree foundRewired rewired apart
    fun owner isParent => wfRewired.parent_outside foundRewired isParent
  rw [exchange, op?_without, if_neg outside, if_neg (by exact noParent), rewired]

/-- Every new operation is one of the statements. -/
theorem exists_of_exchange_new (numbered : NumberedFrom p.values.size (stmts.flatMap Stmt.defs))
    {other : OpId} (since : p.ops.size ≤ other) (upTo : other < p.ops.size + stmts.length)
    (old new : ValueId) :
    ∃ s ∈ stmts, (p.exchange id op front.length stmts old new).op? other =
      some ((s.toOp op.parent op.loc).replaceUse old new) := by
  obtain ⟨offset, rfl⟩ := Nat.exists_eq_add_of_le since
  have inside : offset < stmts.length := Nat.lt_of_add_lt_add_left upTo
  exact ⟨stmts[offset], List.getElem_mem inside,
    op?_exchange_new wf found held numbered (List.getElem?_eq_getElem inside) old new⟩

/-- What is outside of the operation stays. -/
theorem op?_exchange_outside (numbered : NumberedFrom p.values.size (stmts.flatMap Stmt.defs))
    {other : OpId} {o : Op} (here : p.op? other = some o) (outside : other ∉ p.subtree id)
    (old new : ValueId) :
    ∃ inside, (p.exchange id op front.length stmts old new).op? other =
      some { o.replaceUse old new with region := inside } := by
  obtain ⟨more, placed⟩ := op?_place_old here op.parent op.loc front.length stmts
  have rewired : ((p.place op.parent op.loc front.length stmts).replaceUses old new).op? other =
      some (({ o with region := more } : Op).replaceUse old new) := by
    rw [op?_replaceUses, placed]
    rfl
  have wfRewired : ((p.place op.parent op.loc front.length stmts).replaceUses old new).WellFormed :=
    wf.rewired ⟨_, held⟩
  have stillOutside :
      other ∉ ((p.place op.parent op.loc front.length stmts).replaceUses old new).subtree id := by
    intro inside
    rw [wfRewired.mem_subtree (op?_rewired wf found front.length stmts old new)] at inside
    apply outside
    rw [wf.mem_subtree found]
    apply wfRewired.encloses_of_old ?_ inside
    rintro parent child above ⟨made, foundMade, isParent⟩
    rw [op?_replaceUses] at foundMade
    obtain ⟨kept, foundKept, rfl⟩ := Option.map_eq_some_iff.mp foundMade
    rcases op?_of_place ⟨_, held⟩ numbered foundKept with ⟨before, _, foundBefore, rfl⟩ | ⟨-, s, -, rfl⟩
    · exact ⟨before, foundBefore, isParent⟩
    · -- the new operations are beside the old one
      exact absurd (wf.older id op parent found isParent) (Nat.not_lt_of_le above)
  obtain ⟨inside, kept⟩ := op?_without_old (op.replaceUse old new) rewired stillOutside
  exact ⟨inside, kept⟩

end

theorem body_exchange (wf : p.WellFormed)
    (held : p.region op.parent = .ok (front ++ id :: back)) :
    (p.exchange id op front.length stmts old new).body =
      if op.parent = none then front ++ List.range' p.ops.size stmts.length ++ back else p.body := by
  have top : p.region none = .ok p.body := rfl
  have region : (p.exchange id op front.length stmts old new).region none = _ :=
    region_exchange wf held top (by simp)
  simp only [eq_comm (a := none)] at region
  exact Except.ok.inj region

end

/-- An operation of a well-formed program is at one place in the region of its parent. -/
theorem WellFormed.exists_position {p : Program} (wf : p.WellFormed) {id : OpId} {op : Op}
    (found : p.op? id = some op) :
    ∃ front back, p.region op.parent = .ok (front ++ id :: back) ∧
      p.position? id = some (op.parent, front.length) := by
  obtain ⟨region, held, mem⟩ := wf.placed id op found
  obtain ⟨front, back, rfl⟩ := List.append_of_mem mem
  have outside : id ∉ front := fun early =>
    (List.nodup_append.mp (wf.nodup op.parent _ held)).2.2 id early id List.mem_cons_self rfl
  refine ⟨front, back, held, ?_⟩
  simp [position?, found, held, idxOf?_append_cons outside]

end Program

namespace StateUpdate

variable {config : Config} {p : Program} {id : OpId} {op : Op}

/-- A state update that is not refused is exchanged for its block, after the counter is there. -/
theorem expand_eq_exchange (wf : p.WellFormed) (found : p.op? id = some op)
    (accepted : refusal? config p id = none) :
    ∃ parts r event front back, inspect config.counterBits p id = .ok parts ∧ op.results = [r] ∧
      (p.withCounter config op.loc).region op.parent = .ok (front ++ id :: back) ∧
      expand config id p = .ok [event] ((p.withCounter config op.loc).exchange id op front.length
        (block config.stateSymbol config.wide parts p.values.size) r
        (blockResult config.wide parts p.values.size)) := by
  obtain ⟨⟨parts, passed⟩, -⟩ := refusal?_eq_none accepted
  obtain ⟨counter, event, got, sym, cellTy⟩ := Counter.getOrCreate_run accepted
  obtain ⟨-, -, -, -, -, -, r, results, -⟩ := inspect_ok found passed
  have place : (p.op? id).bind (·.loc) = op.loc := by rw [found]; rfl
  rw [place] at got
  have next := p.values_withCounter config op.loc
  have wf₁ := wf.withCounter config op.loc
  have found₁ := p.op?_withCounter config op.loc found
  generalize p.withCounter config op.loc = p₁ at got next wf₁ found₁ ⊢
  obtain ⟨front, back, held, position⟩ := wf₁.exists_position found₁
  refine ⟨parts, r, event, front, back, passed, results, held, ?_⟩
  have before : Builder.before p₁ id =
      .ok { program := p₁, parent := op.parent, index := front.length, loc := op.loc } := by
    simp only [Builder.before, position, found₁]
    rfl
  have isOpen : Builder.Open
      { program := p₁, parent := op.parent, index := front.length, loc := op.loc } p.values.size :=
    ⟨⟨front ++ id :: back, held⟩, next⟩
  refine expand_run passed got before (emit_eq isOpen cellTy parts) ?_
  rw [sym]
  exact Program.replace_place wf₁ found₁ results

end StateUpdate

end RngLowering
