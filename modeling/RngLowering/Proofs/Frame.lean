import RngLowering.Proofs.CounterCell

set_option autoImplicit false

namespace RngLowering

/-- What stands for what in a program that was rewritten: operations in the place of each operation, a
value in the place of each value, and operations before all others of the body. -/
structure Substitution where
  ops : OpId → List OpId
  values : ValueId → ValueId
  front : List OpId

namespace Substitution

def refl : Substitution := ⟨fun id => [id], fun v => v, []⟩

def trans (σ τ : Substitution) : Substitution where
  ops id := (σ.ops id).flatMap τ.ops
  values v := τ.values (σ.values v)
  front := τ.front ++ σ.front.flatMap τ.ops

def ahead (front : List OpId) : Substitution := { refl with front }

/-- Operations in the place of one operation, and a value in the place of its result. -/
def exchange (id : OpId) (block : List OpId) (old new : ValueId) : Substitution where
  ops other := if other = id then block else [other]
  values := swap old new
  front := []

end Substitution

/-- An operation as it stays in a program that was rewritten. -/
def Op.substitute (op : Op) (σ : Substitution) : Op :=
  { op with operands := op.operands.map σ.values, region := op.region.flatMap σ.ops }

namespace Program

/-- In `q` there is a block of new operations in the place of a state update of `p`. -/
structure Replaced (p q : Program) (σ : Substitution) (id : OpId) (op : Op) : Prop where
  update : op.kind = .rngUpdate
  gone : q.op? id = none
  /-- The new operations have the parent and the location of the state update. -/
  block : ∀ new ∈ σ.ops id, p.ops.size ≤ new ∧
    ∃ made, q.op? new = some made ∧ made.parent = op.parent ∧ made.loc = op.loc
  /-- The block ends with a cast, whose result stands for that of the state update. -/
  result : ∃ old last made, op.results = [old] ∧ (σ.ops id).getLast? = some last ∧
    q.op? last = some made ∧ made.kind = .cast ∧ made.results = [σ.values old]

/-- In `q` there is a new operation, in front of the body or in the place of a state update. -/
structure Added (p q : Program) (σ : Substitution) (id : OpId) (made : Op) : Prop where
  since : p.ops.size ≤ id
  plain : made.region = []
  other : made.kind ≠ .rngUpdate
  source : id ∈ σ.front ∨ ∃ old op, p.op? old = some op ∧ p.Replaced q σ old op ∧ id ∈ σ.ops old

/-- The program `q` is `p` with some of its state updates replaced. All other operations stay, and
nothing else is new but what stands in front of the body. -/
structure Reworked (p q : Program) (σ : Substitution) : Prop where
  size : p.ops.size ≤ q.ops.size
  /-- What is new is there. -/
  taken : ∀ id, p.ops.size ≤ id → id < q.ops.size → ∃ made, q.op? id = some made
  values : ∀ v info, p.value? v = some info → q.value? v = some info
  body : q.body = σ.front ++ p.body.flatMap σ.ops
  ops : ∀ id op, p.op? id = some op →
    (σ.ops id = [id] ∧ q.op? id = some (op.substitute σ)) ∨ p.Replaced q σ id op
  /-- Only the result of a state update that was replaced has another value in its place. -/
  uses : ∀ v, σ.values v ≠ v → ∃ id op, p.op? id = some op ∧ p.Replaced q σ id op ∧ op.results = [v]
  created : ∀ id made, q.op? id = some made → (p.op? id).isSome ∨ p.Added q σ id made
  front : ∀ id ∈ σ.front, p.ops.size ≤ id ∧
    ∃ made, q.op? id = some made ∧ made.kind.definesSymbol = true

def PlainUpdates (p : Program) : Prop :=
  ∀ id op, p.op? id = some op → op.kind = .rngUpdate → op.region = []

section

variable {p q r : Program} {σ τ : Substitution} {id other : OpId} {op made : Op}

/-- A value is the result of one operation. -/
theorem WellFormed.eq_of_mem_results (wf : p.WellFormed) {x y : Op} (found : p.op? id = some x)
    (foundOther : p.op? other = some y) {v : ValueId} (mem : v ∈ x.results) (memOther : v ∈ y.results) :
    id = other := by
  obtain ⟨_, _, entry⟩ := wf.value?_of_mem_results found mem
  obtain ⟨_, _, entryOther⟩ := wf.value?_of_mem_results foundOther memOther
  rw [entry] at entryOther
  cases entryOther
  rfl

theorem flatMap_singletons {ids : List OpId} {f : OpId → List OpId} (alone : ∀ id ∈ ids, f id = [id]) :
    ids.flatMap f = ids := by
  rw [List.flatMap_congr alone]
  exact List.flatMap_singleton' ids

@[simp] theorem substitute_refl (op : Op) : op.substitute .refl = op := by
  simp [Op.substitute, Substitution.refl]

theorem Reworked.refl (p : Program) : p.Reworked p .refl where
  size := Nat.le_refl _
  taken id new inside := absurd inside (Nat.not_lt_of_le new)
  values _ _ entry := entry
  body := (flatMap_singletons (by simp [Substitution.refl])).symm
  ops id op found := Or.inl ⟨rfl, by rw [found, substitute_refl]⟩
  uses v changed := absurd rfl changed
  created id made here := Or.inl (by simp [here])
  front id mem := by cases mem

namespace Reworked

/-- What is no state update stays. -/
theorem stays (step : p.Reworked q σ) (found : p.op? id = some op) (other : op.kind ≠ .rngUpdate) :
    σ.ops id = [id] ∧ q.op? id = some (op.substitute σ) := by
  rcases step.ops id op found with kept | replaced
  · exact kept
  · exact absurd replaced.update other

/-- What is gone stays so. -/
theorem gone (step : p.Reworked q σ) (inside : id < p.ops.size) (dead : p.op? id = none) :
    q.op? id = none := by
  cases here : q.op? id with
  | none => rfl
  | some made =>
    rcases step.created id made here with before | added
    · rw [dead] at before
      cases before
    · exact absurd inside (Nat.not_lt_of_le added.since)

theorem added (step : p.Reworked q σ) (new : p.ops.size ≤ id) (here : q.op? id = some made) :
    p.Added q σ id made := by
  rcases step.created id made here with before | added
  · obtain ⟨op, found⟩ := Option.isSome_iff_exists.mp before
    exact absurd (op?_lt found) (Nat.not_lt_of_le new)
  · exact added

/-- A state update was there before. -/
theorem exists_update (step : p.Reworked q σ) (here : q.op? id = some made)
    (update : made.kind = .rngUpdate) :
    ∃ op, p.op? id = some op ∧ σ.ops id = [id] ∧ made = op.substitute σ := by
  rcases step.created id made here with before | added
  · obtain ⟨op, found⟩ := Option.isSome_iff_exists.mp before
    rcases step.ops id op found with ⟨alone, kept⟩ | replaced
    · rw [here] at kept
      exact ⟨op, found, alone, Option.some.inj kept⟩
    · rw [replaced.gone] at here
      cases here
  · exact absurd update added.other

theorem plainUpdates (step : p.Reworked q σ) (plain : p.PlainUpdates) : q.PlainUpdates := by
  intro id made here update
  obtain ⟨op, found, -, rfl⟩ := step.exists_update here update
  simp [Op.substitute, plain id op found update]

/-- The results of what stays stand for themselves. -/
theorem values_eq (step : p.Reworked q σ) (wf : p.WellFormed) (found : p.op? id = some op)
    (live : q.op? id = some made) {v : ValueId} (mem : v ∈ op.results) : σ.values v = v := by
  by_contra changed
  obtain ⟨other, replacedOp, foundOther, replaced, results⟩ := step.uses v changed
  have same := wf.eq_of_mem_results found foundOther mem (by simp [results])
  rw [same, replaced.gone] at live
  cases live

/-- A block stays where it is. -/
theorem ops_block (first : p.Reworked q σ) (second : q.Reworked r τ) (replaced : p.Replaced q σ id op) :
    (σ.trans τ).ops id = σ.ops id := by
  refine flatMap_singletons fun new mem => ?_
  obtain ⟨since, made, here, -⟩ := replaced.block new mem
  exact (second.stays here (first.added since here).other).1

end Reworked

/-- What was replaced stays replaced. -/
theorem Replaced.later (replaced : p.Replaced q σ id op) (found : p.op? id = some op)
    (wf : q.WellFormed) (first : p.Reworked q σ) (second : q.Reworked r τ) :
    p.Replaced r (σ.trans τ) id op where
  update := replaced.update
  gone := second.gone (Nat.lt_of_lt_of_le (op?_lt found) first.size) replaced.gone
  block new mem := by
    rw [first.ops_block second replaced] at mem
    obtain ⟨since, made, here, parent, loc⟩ := replaced.block new mem
    exact ⟨since, _, (second.stays here (first.added since here).other).2, parent, loc⟩
  result := by
    obtain ⟨old, last, made, results, isLast, here, kind, madeResults⟩ := replaced.result
    -- the cast stays too, and so no other value stands for its result
    have later := (second.stays here (by rw [kind]; simp)).2
    refine ⟨old, last, _, results, ?_, later, kind, ?_⟩
    · rw [first.ops_block second replaced]
      exact isLast
    · have same : τ.values (σ.values old) = σ.values old :=
        second.values_eq wf here later (by simp [madeResults])
      change made.results = [τ.values (σ.values old)]
      rw [same, madeResults]

/-- What stayed at first and is replaced then is replaced in all. -/
theorem Replaced.after (replaced : q.Replaced r τ id (op.substitute σ)) (found : p.op? id = some op)
    (here : q.op? id = some (op.substitute σ)) (alone : σ.ops id = [id]) (wf : p.WellFormed)
    (first : p.Reworked q σ) : p.Replaced r (σ.trans τ) id op := by
  have ops : (σ.trans τ).ops id = τ.ops id := by
    simp [Substitution.trans, alone]
  refine ⟨replaced.update, replaced.gone, fun new mem => ?_, ?_⟩
  · rw [ops] at mem
    obtain ⟨since, made⟩ := replaced.block new mem
    exact ⟨Nat.le_trans first.size since, made⟩
  · obtain ⟨old, last, made, results, isLast, rest⟩ := replaced.result
    have result : op.results = [old] := results
    have same : σ.values old = old := first.values_eq wf found here (by simp [result])
    refine ⟨old, last, made, result, ops ▸ isLast, ?_⟩
    rw [show (σ.trans τ).values old = τ.values old from congrArg τ.values same]
    exact rest

/-- What was added stays. -/
theorem Added.later (added : p.Added q σ id made) (here : q.op? id = some made) (wf : q.WellFormed)
    (first : p.Reworked q σ) (second : q.Reworked r τ) :
    r.op? id = some (made.substitute τ) ∧ p.Added r (σ.trans τ) id (made.substitute τ) := by
  obtain ⟨alone, kept⟩ := second.stays here added.other
  refine ⟨kept, added.since, by simp [Op.substitute, added.plain], added.other, ?_⟩
  rcases added.source with inFront | ⟨old, op, found, replaced, mem⟩
  · refine Or.inl (List.mem_append_right _ ?_)
    exact List.mem_flatMap.mpr ⟨id, inFront, by simp [alone]⟩
  · refine Or.inr ⟨old, op, found, replaced.later found wf first second, ?_⟩
    rw [first.ops_block second replaced]
    exact mem

theorem Added.after (added : q.Added r τ id made) (wf : p.WellFormed) (first : p.Reworked q σ) :
    p.Added r (σ.trans τ) id made := by
  refine ⟨Nat.le_trans first.size added.since, added.plain, added.other, ?_⟩
  rcases added.source with inFront | ⟨old, before, foundBefore, replaced, mem⟩
  · exact Or.inl (List.mem_append_left _ inFront)
  · obtain ⟨op, found, alone, rfl⟩ := first.exists_update foundBefore replaced.update
    refine Or.inr ⟨old, op, found, replaced.after found foundBefore alone wf first, ?_⟩
    simpa [Substitution.trans, alone] using mem

theorem Reworked.trans (first : p.Reworked q σ) (second : q.Reworked r τ) (wfFirst : p.WellFormed)
    (wfSecond : q.WellFormed) : p.Reworked r (σ.trans τ) where
  size := Nat.le_trans first.size second.size
  taken id new inside := by
    by_cases later : q.ops.size ≤ id
    · exact second.taken id later inside
    · obtain ⟨made, here⟩ := first.taken id new (Nat.lt_of_not_le later)
      exact ⟨_, (second.stays here (first.added new here).other).2⟩
  values v info entry := second.values v info (first.values v info entry)
  body := by
    rw [second.body, first.body, List.flatMap_append, List.flatMap_assoc, ← List.append_assoc]
    rfl
  ops id op found := by
    rcases first.ops id op found with ⟨alone, kept⟩ | replaced
    · rcases second.ops id _ kept with ⟨aloneAgain, keptAgain⟩ | replaced
      · refine Or.inl ⟨by simp [Substitution.trans, alone, aloneAgain], ?_⟩
        rw [keptAgain]
        simp [Op.substitute, Substitution.trans, List.flatMap_assoc, Function.comp_def]
      · exact Or.inr (replaced.after found kept alone wfFirst first)
    · exact Or.inr (replaced.later found wfSecond first second)
  uses v changed := by
    by_cases before : σ.values v = v
    · have later : τ.values v ≠ v := by
        simpa [Substitution.trans, before] using changed
      obtain ⟨id, made, here, replaced, results⟩ := second.uses v later
      obtain ⟨op, found, alone, rfl⟩ := first.exists_update here replaced.update
      exact ⟨id, op, found, replaced.after found here alone wfFirst first, results⟩
    · obtain ⟨id, op, found, replaced, results⟩ := first.uses v before
      exact ⟨id, op, found, replaced.later found wfSecond first second, results⟩
  created id last here := by
    rcases second.created id last here with before | added
    · obtain ⟨made, foundMade⟩ := Option.isSome_iff_exists.mp before
      rcases first.created id made foundMade with already | added
      · exact Or.inl already
      · obtain ⟨kept, stillAdded⟩ := added.later foundMade wfSecond first second
        rw [here] at kept
        cases kept
        exact Or.inr stillAdded
    · exact Or.inr (added.after wfFirst first)
  front id mem := by
    rcases List.mem_append.mp mem with new | old
    · obtain ⟨since, made⟩ := second.front id new
      exact ⟨Nat.le_trans first.size since, made⟩
    · obtain ⟨other, inFront, mem⟩ := List.mem_flatMap.mp old
      obtain ⟨since, made, here, defines⟩ := first.front other inFront
      obtain ⟨alone, kept⟩ := second.stays here (first.added since here).other
      rw [alone, List.mem_singleton] at mem
      rw [mem]
      exact ⟨since, _, kept, defines⟩

end

theorem reworked_withCounter (p : Program) (config : Config) (loc : Option Loc) :
    ∃ front, p.Reworked (p.withCounter config loc) (.ahead front) := by
  cases defined : p.lookupSymbol? config.stateSymbol with
  | some d =>
    rw [withCounter_of_some defined]
    exact ⟨[], .refl p⟩
  | none =>
    have size : (p.withCounter config loc).ops.size = p.ops.size + 1 := by
      rw [withCounter_of_none defined, size_ops_place]
      rfl
    refine ⟨[p.ops.size], ?_, ?_, ?_, ?_, ?_, ?_, ?_, ?_⟩
    · rw [size]
      exact Nat.le_add_right _ _
    · intro id new inside
      rw [size] at inside
      cases Nat.le_antisymm new (Nat.le_of_lt_succ inside)
      exact ⟨_, op?_counter defined⟩
    · intro v info entry
      rw [withCounter_of_none defined]
      exact value?_place_old entry _ _ _ _
    · rw [body_withCounter, defined]
      exact congrArg (p.ops.size :: ·) (flatMap_singletons fun _ _ => rfl).symm
    · intro id op found
      refine Or.inl ⟨rfl, ?_⟩
      rw [p.op?_withCounter config loc found]
      exact congrArg some (substitute_refl op).symm
    · intro v changed
      exact absurd rfl changed
    · intro id made here
      rcases op?_of_withCounter here with ⟨old, inside, found, -⟩ | ⟨-, rfl, rfl⟩
      · exact Or.inl (by simp [found])
      · exact Or.inr ⟨Nat.le_refl _, rfl, by simp [Config.counterStmt, Stmt.toOp],
          Or.inl (List.mem_singleton_self _)⟩
    · intro id mem
      rw [List.mem_singleton.mp mem]
      exact ⟨Nat.le_refl _, _, op?_counter defined, rfl⟩

section

variable {p : Program} {id : OpId} {op : Op} {stmts : List Stmt} {old new : ValueId}
  {front back : List OpId}

theorem flatMap_exchange_of_not_mem {ids block : List OpId} (missing : id ∉ ids) :
    ids.flatMap (Substitution.exchange id block old new).ops = ids :=
  flatMap_singletons fun _ mem => if_neg (ne_of_mem_of_not_mem mem missing)

/-- In a list with the operation, the others stand in its place. -/
theorem flatMap_exchange {block : List OpId} (nodup : (front ++ id :: back).Nodup) :
    (front ++ id :: back).flatMap (Substitution.exchange id block old new).ops =
      front ++ block ++ back := by
  obtain ⟨-, nodupBack, apart⟩ := List.nodup_append.mp nodup
  rw [List.flatMap_append, List.flatMap_cons,
    flatMap_exchange_of_not_mem fun mem => apart id mem id List.mem_cons_self rfl,
    flatMap_exchange_of_not_mem (List.nodup_cons.mp nodupBack).1]
  simp [Substitution.exchange]

section

variable (wf : p.WellFormed) (found : p.op? id = some op) (plain : op.region = [])

include wf found plain

theorem subtree_rewired (index : Nat) (stmts : List Stmt) (old new : ValueId) :
    ((p.place op.parent op.loc index stmts).replaceUses old new).subtree id = [id] :=
  subtree_of_plain (op?_rewired wf found index stmts old new) plain

theorem op?_exchange_self (index : Nat) (stmts : List Stmt) (old new : ValueId) :
    (p.exchange id op index stmts old new).op? id = none := by
  rw [exchange, op?_without, subtree_rewired wf found plain, if_pos (List.mem_singleton_self id)]

variable (held : p.region op.parent = .ok (front ++ id :: back))

include held

/-- In every region, the new operations stand in the place of the one that they are for. -/
theorem region_exchange_flatMap {owner : Option OpId} {inside : List OpId}
    (heldInside : p.region owner = .ok inside) (apart : owner ≠ some id) (stmts : List Stmt)
    (old new : ValueId) :
    (p.exchange id op front.length stmts old new).region owner =
      .ok (inside.flatMap
        (Substitution.exchange id (List.range' p.ops.size stmts.length) old new).ops) := by
  rw [region_exchange wf held heldInside]
  · split
    · rename_i same
      rw [same, held] at heldInside
      cases heldInside
      rw [flatMap_exchange (wf.nodup _ _ held)]
    · rename_i other
      rw [flatMap_exchange_of_not_mem]
      intro mem
      obtain ⟨again, foundAgain, parent⟩ := wf.inside owner inside heldInside id mem
      rw [found] at foundAgain
      cases foundAgain
      exact other parent.symm
  · rintro other rfl
    rw [subtree_rewired wf found plain, List.mem_singleton]
    rintro rfl
    exact apart rfl

/-- The other operations of the program stay. -/
theorem op?_exchange_old {other : OpId} {o : Op} (here : p.op? other = some o) (apart : other ≠ id)
    (stmts : List Stmt) (old new : ValueId) :
    (p.exchange id op front.length stmts old new).op? other =
      some (o.substitute (.exchange id (List.range' p.ops.size stmts.length) old new)) := by
  -- each edit may change the region, which is known at the end only
  obtain ⟨more, placed⟩ := op?_place_old here op.parent op.loc front.length stmts
  have rewired : ((p.place op.parent op.loc front.length stmts).replaceUses old new).op? other =
      some (({ o with region := more } : Op).replaceUse old new) := by
    rw [op?_replaceUses, placed]
    rfl
  have outside : other ∉
      ((p.place op.parent op.loc front.length stmts).replaceUses old new).subtree id := by
    rw [subtree_rewired wf found plain, List.mem_singleton]
    exact apart
  obtain ⟨inside, kept⟩ := op?_without_old (op.replaceUse old new) rewired outside
  have region := region_exchange_flatMap wf found plain held (region_of_op? here) (by simpa using apart)
    stmts old new
  rw [exchange, region_of_op? kept] at region
  rw [exchange, kept, Op.substitute, ← Except.ok.inj region]
  rfl

theorem replaced_exchange (update : op.kind = .rngUpdate) (results : op.results = [old])
    (numbered : NumberedFrom p.values.size (stmts.flatMap Stmt.defs)) {last : Stmt}
    (ends : stmts.getLast? = some last) (cast : last.kind = .cast) (result : last.defs = [new]) :
    p.Replaced (p.exchange id op front.length stmts old new)
      (.exchange id (List.range' p.ops.size stmts.length) old new) id op := by
  have block : (Substitution.exchange id (List.range' p.ops.size stmts.length) old new).ops id =
      List.range' p.ops.size stmts.length := if_pos rfl
  refine ⟨update, op?_exchange_self wf found plain _ _ _ _, fun other mem => ?_, ?_⟩
  · rw [block, List.mem_range'_1] at mem
    obtain ⟨s, -, here⟩ := exists_of_exchange_new wf found held numbered mem.1 mem.2 old new
    exact ⟨mem.1, _, here, rfl, rfl⟩
  · have nonempty : 0 < stmts.length := List.length_pos_of_mem (List.mem_of_getLast? ends)
    rw [List.getLast?_eq_getElem?] at ends
    refine ⟨old, p.ops.size + (stmts.length - 1), _, results, ?_,
      op?_exchange_new wf found held numbered ends old new, cast, ?_⟩
    · rw [block, List.getLast?_eq_getElem?, List.length_range', List.getElem?_range' (by omega),
        Nat.one_mul]
    · change last.defs = [swap old new old]
      rw [result, swap_self]

/-- A state update that is exchanged for statements is replaced, and nothing else is. -/
theorem reworked_exchange (update : op.kind = .rngUpdate) (results : op.results = [old])
    (numbered : NumberedFrom p.values.size (stmts.flatMap Stmt.defs))
    (others : ∀ s ∈ stmts, s.kind ≠ .rngUpdate) {last : Stmt} (ends : stmts.getLast? = some last)
    (cast : last.kind = .cast) (result : last.defs = [new]) :
    p.Reworked (p.exchange id op front.length stmts old new)
      (.exchange id (List.range' p.ops.size stmts.length) old new) := by
  have replaced := replaced_exchange wf found plain held update results numbered ends cast result
  constructor
  · rw [size_ops_exchange]
    exact Nat.le_add_right _ _
  · intro other since upTo
    rw [size_ops_exchange] at upTo
    obtain ⟨s, -, here⟩ := exists_of_exchange_new wf found held numbered since upTo old new
    exact ⟨_, here⟩
  · intro v info entry
    rw [value?_exchange]
    exact value?_place_old entry _ _ _ _
  · have top : p.region none = .ok p.body := rfl
    exact Except.ok.inj (region_exchange_flatMap wf found plain held top (by simp) stmts old new)
  · intro other o here
    by_cases same : other = id
    · subst same
      rw [found] at here
      cases here
      exact Or.inr replaced
    · exact Or.inl ⟨if_neg same, op?_exchange_old wf found plain held here same stmts old new⟩
  · intro v changed
    have same : v = old := by
      by_contra other
      exact changed (swap_of_ne other)
    exact ⟨id, op, found, replaced, by rw [same, results]⟩
  · intro other made here
    by_cases before : other < p.ops.size
    · rcases op?_of_exchange wf found ⟨_, held⟩ numbered here with
        ⟨-, ⟨o, -, foundOther, -⟩ | ⟨since, -⟩⟩
      · exact Or.inl (by simp [foundOther])
      · exact absurd before (Nat.not_lt_of_le since)
    · have since := Nat.le_of_not_lt before
      have upTo := op?_lt here
      rw [size_ops_exchange] at upTo
      obtain ⟨s, mem, isStmt⟩ := exists_of_exchange_new wf found held numbered since upTo old new
      rw [here] at isStmt
      cases isStmt
      refine Or.inr ⟨since, rfl, others s mem, Or.inr ⟨id, op, found, replaced, ?_⟩⟩
      simpa [Substitution.exchange, List.mem_range'_1] using ⟨since, upTo⟩
  · intro other mem
    cases mem

end

end

end Program

/-- A block ends with the cast to the declared type. -/
theorem StateUpdate.getLast?_block (sym : String) (wide : IntTy) (parts : Parts) (n : ValueId) :
    ∃ last, (block sym wide parts n).getLast? = some last ∧ last.kind = .cast ∧
      last.defs = [blockResult wide parts n] := by
  refine ⟨⟨.cast, [packedValue wide parts n], [(blockResult wide parts n, parts.resultTy)]⟩,
    ?_, rfl, rfl⟩
  simp only [block, List.getLast?_append]
  rfl

theorem OpKind.IsStep.ne_rngUpdate {kind : OpKind} (isStep : kind.IsStep) : kind ≠ .rngUpdate := by
  rintro rfl
  exact absurd isStep.legal (by decide)

namespace Lowering

variable {config : Config} {p q : Program} {ids : List OpId}

/-- Expanding state updates replaces them, and nothing else. -/
theorem Expands.reworked (expands : Expands config p ids q) (wf : p.WellFormed)
    (plain : p.PlainUpdates) : ∃ σ, p.Reworked q σ := by
  induction expands with
  | nil => exact ⟨.refl, .refl p⟩
  | @snoc q r ids id events front update last ih =>
    obtain ⟨σ, before⟩ := ih
    have wfFront := (front.shares wf).wellFormed
    obtain ⟨op, found, kind⟩ := StateUpdate.isStateUpdate_iff.mp (List.mem_filter.mp update).2
    have empty := before.plainUpdates plain id op found kind
    obtain ⟨parts, result, event, left, right, -, results, held, expanded⟩ :=
      StateUpdate.expand_eq_exchange wfFront found (StateUpdate.refusal?_of_expand last)
    rw [last] at expanded
    cases expanded
    -- first the counter is created if there is none, then the block is put in place
    obtain ⟨cell, counter⟩ := q.reworked_withCounter config op.loc
    have wfCounter := wfFront.withCounter config op.loc
    obtain ⟨ends, isLast, cast, defs⟩ :=
      StateUpdate.getLast?_block config.stateSymbol config.wide parts q.values.size
    have exchanged := Program.reworked_exchange wfCounter
      (q.op?_withCounter config op.loc found) empty held kind results
      (by rw [Program.values_withCounter]; exact StateUpdate.numbered_block _ _ _ _)
      (fun s mem => (StateUpdate.isStep_block mem).ne_rngUpdate) isLast cast defs
    exact ⟨_, before.trans (counter.trans exchanged wfFront wfCounter) wf wfFront⟩

/-- Only the counter is new in front of the body. -/
theorem Shares.length_front_le (shares : Shares config p q) {σ : Substitution}
    (reworked : p.Reworked q σ) : σ.front.length ≤ 1 := by
  have isFirst : ∀ id ∈ σ.front, q.body.head? = some id := by
    intro id mem
    obtain ⟨since, made, here, defines⟩ := reworked.front id mem
    exact (shares.symbols id made since here defines).1
  have nodup : σ.front.Nodup := by
    have whole := shares.wellFormed.nodup none q.body rfl
    rw [reworked.body] at whole
    exact whole.of_append_left
  rcases front : σ.front with _ | ⟨a, _ | ⟨b, rest⟩⟩
  · exact Nat.zero_le 1
  · exact Nat.le_refl 1
  · rw [front] at isFirst nodup
    have same : some a = some b := by rw [← isFirst a (by simp), ← isFirst b (by simp)]
    cases same
    exact absurd List.mem_cons_self (List.nodup_cons.mp nodup).1

theorem plainUpdates_of_represents {o : Outline} (rep : p.Represents o) (wf : p.WellFormed) :
    p.PlainUpdates := by
  intro id op found update
  rcases Program.stmt_of_mem_walk rep (wf.mem_walk_of_op? found) found with ⟨s, -, parent, holds⟩ |
    ⟨sym, params, region, loc, rfl⟩
  · exact holds.region_eq found
  · cases update

end Lowering

open Lowering in
/-- Whatever the configuration and however a lowering ends, it replaces state updates and leaves the
rest of the program as it is, with at most one new operation in front of the body. -/
theorem lower_frame {name text : String} {p : Program} (read : Program.ofText name text = .ok p)
    (config : Config) :
    ∃ σ : Substitution, p.Reworked (lower config p).program σ ∧ σ.front.length ≤ 1 := by
  obtain ⟨o, isText⟩ := Program.exists_isText_of_ofText read
  have wf : p.WellFormed := Program.wellFormed_of_build isText.numbered isText.built
  obtain ⟨ids, expands⟩ := exists_expands_lower (ready_of_isText isText) config
  obtain ⟨σ, reworked⟩ := expands.reworked wf (plainUpdates_of_represents isText.represents wf)
  exact ⟨σ, reworked, (expands.shares wf).length_front_le reworked⟩

/-- The result of the state update is used twice by one operation, which has no legal name. -/
theorem lower_frame_pair :
    ∃ p σ last cast user v, Program.ofText "in" "func.func @f(%d: i32) \x7b
      %a = mhlo.rng_get_and_update_state %d : tensor<2xui32>
      test.pair %a, %a\x7d" = .ok p ∧
      p.Reworked (lower {} p).program σ ∧ σ.front.length ≤ 1 ∧
      (lower {} p).program.op? 1 = none ∧ (σ.ops 1).getLast? = some last ∧
      (lower {} p).program.op? last = some cast ∧ cast.kind = .cast ∧ cast.results = [v] ∧
      (lower {} p).program.op? 2 = some user ∧ user.operands = [v, v] := by
  obtain ⟨p, read, first, second, gone⟩ : ∃ p, Program.ofText "in" "func.func @f(%d: i32) \x7b
      %a = mhlo.rng_get_and_update_state %d : tensor<2xui32>
      test.pair %a, %a\x7d" = .ok p ∧
      (p.op? 1).any (fun op => op.results = [1]) = true ∧
      (p.op? 2).any (fun op => op.kind ≠ .rngUpdate ∧ op.operands = [1, 1]) = true ∧
      (lower {} p).program.op? 1 = none := by
    apply Program.exists_of_chars
    decide +kernel
  obtain ⟨update, foundUpdate, results⟩ := Option.any_eq_true .. |>.mp first
  obtain ⟨user, foundUser, isUser⟩ := Option.any_eq_true .. |>.mp second
  obtain ⟨other, operands⟩ := of_decide_eq_true isUser
  obtain ⟨σ, reworked, front⟩ := lower_frame read {}
  rcases reworked.ops 1 update foundUpdate with ⟨-, kept⟩ | replaced
  · rw [gone] at kept
    cases kept
  · obtain ⟨old, last, cast, isOld, isLast, found, kind, isNew⟩ := replaced.result
    rw [of_decide_eq_true results] at isOld
    cases isOld
    exact ⟨p, σ, last, cast, _, _, read, reworked, front, gone, isLast, found, kind, isNew,
      (reworked.stays foundUser other).2, by simp [Op.substitute, operands]⟩

end RngLowering
