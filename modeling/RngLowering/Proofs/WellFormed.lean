import Mathlib.Data.List.Induction
import Mathlib.Logic.Relation
import RngLowering.Outcome
import RngLowering.Proofs.Edits

set_option autoImplicit false

namespace RngLowering.Program

/-- What the arena and the table of values promise each other. The top-level region has no owner. -/
structure Forest (p : Program) : Prop where
  /-- A region holds live operations, and its owner is their parent. -/
  inside : ∀ parent region, p.region parent = .ok region →
    ∀ id ∈ region, ∃ op, p.op? id = some op ∧ op.parent = parent
  /-- An operation is in the region of its parent. -/
  placed : ∀ id op, p.op? id = some op → ∃ region, p.region op.parent = .ok region ∧ id ∈ region
  nodup : ∀ parent region, p.region parent = .ok region → region.Nodup
  /-- A parent was there before what it encloses. -/
  older : ∀ id op parent, p.op? id = some op → op.parent = some parent → parent < id
  results : ∀ id op, p.op? id = some op → ∀ index value, op.results[index]? = some value →
    ∃ ty, p.value? value = some ⟨ty, .result id index⟩

/-- Parameters have their entries too. An inserted operation gets results of its own but keeps the
parameters that it comes with, so insertion promises this only for one that has none. -/
structure WellFormed (p : Program) : Prop extends Forest p where
  args : ∀ id op, p.op? id = some op → ∀ index value, op.args[index]? = some value →
    ∃ ty, p.value? value = some ⟨ty, .arg id index⟩

/-- The operation at `child` has the one at `parent` as its parent. -/
def IsParent (p : Program) (parent child : OpId) : Prop :=
  ∃ op, p.op? child = some op ∧ op.parent = some parent

/-- The second operation is the first one, or somewhere in it. -/
def Encloses (p : Program) : OpId → OpId → Prop := Relation.ReflTransGen p.IsParent

section

variable {p : Program} {id : OpId} {op : Op}

theorem isLive_iff : p.isLive id = true ↔ ∃ op, p.op? id = some op := by
  unfold isLive
  exact Option.isSome_iff_exists

theorem region_of_op? (found : p.op? id = some op) : p.region (some id) = .ok op.region := by
  simp only [region, found]

theorem op?_of_region {region : List OpId} (found : p.region (some id) = .ok region) :
    ∃ op, p.op? id = some op ∧ op.region = region := by
  cases here : p.op? id with
  | none => simp [Program.region, here] at found
  | some op => exact ⟨op, rfl, by simpa [Program.region, here] using found⟩

namespace Forest

variable {parent child other : Nat}

/-- What an operation is the parent of is what its region holds. -/
theorem isParent_iff (forest : p.Forest) (found : p.op? parent = some op) :
    p.IsParent parent child ↔ child ∈ op.region := by
  have region := region_of_op? found
  constructor
  · rintro ⟨inner, here, isParent⟩
    obtain ⟨holding, held, mem⟩ := forest.placed child inner here
    rw [isParent, region] at held
    cases held
    exact mem
  · intro mem
    exact forest.inside (some parent) op.region region child mem

theorem lt_of_isParent (forest : p.Forest) (isParent : p.IsParent parent child) : parent < child := by
  obtain ⟨op, found, same⟩ := isParent
  exact forest.older child op parent found same

theorem le_of_encloses (forest : p.Forest) (encloses : p.Encloses parent child) : parent ≤ child := by
  induction encloses with
  | refl => exact Nat.le_refl parent
  | tail _ isParent ih =>
    have below := forest.lt_of_isParent isParent
    omega

/-- An operation is enclosed by no two operations of one region. -/
theorem eq_of_encloses (forest : p.Forest) {first second : Op} (found : p.op? parent = some first)
    (foundOther : p.op? other = some second) (siblings : first.parent = second.parent)
    (left : p.Encloses parent child) (right : p.Encloses other child) : parent = other := by
  -- going up from an operation there is one way, so one of the two encloses the other
  have oneWay : Relator.RightUnique (Function.swap p.IsParent) := by
    rintro low high third ⟨op, here, isHigh⟩ ⟨same, again, isThird⟩
    rw [here] at again
    cases again
    rw [isHigh] at isThird
    exact Option.some.inj isThird
  have apart : ∀ {a b : Nat} {x y : Op}, p.op? a = some x → p.op? b = some y →
      x.parent = y.parent → p.Encloses a b → a = b := by
    intro a b x y foundA foundB same encloses
    rcases Relation.ReflTransGen.cases_tail_iff _ _ _ |>.mp encloses with rfl | ⟨c, above, isParent⟩
    · rfl
    · obtain ⟨z, foundC, parentC⟩ := isParent
      rw [foundB] at foundC
      cases foundC
      have low := forest.older a x c foundA (same.trans parentC)
      have high := forest.le_of_encloses above
      exact absurd low (Nat.not_lt_of_le high)
  rcases Relation.ReflTransGen.total_of_right_unique oneWay (Relation.ReflTransGen.swap _ _ left)
    (Relation.ReflTransGen.swap _ _ right) with up | up
  · exact (apart foundOther found siblings.symm (Relation.ReflTransGen.swap _ _ up)).symm
  · exact apart found foundOther siblings (Relation.ReflTransGen.swap _ _ up)

/-- What a live operation encloses is live. -/
theorem live_of_encloses (encloses : p.Encloses parent child) (live : p.isLive parent = true) :
    p.isLive child = true := by
  rcases Relation.ReflTransGen.cases_tail_iff _ _ _ |>.mp encloses with rfl | ⟨_, -, op, found, -⟩
  · exact live
  · exact isLive_iff.mpr ⟨op, found⟩

/-- Every operation is enclosed by one of the body. -/
theorem exists_root (forest : p.Forest) (found : p.op? id = some op) :
    ∃ root ∈ p.body, p.Encloses root id := by
  induction id using Nat.strongRecOn generalizing op with
  | ind id ih =>
    obtain ⟨region, held, mem⟩ := forest.placed id op found
    cases parent : op.parent with
    | none =>
      rw [parent] at held
      cases held
      exact ⟨id, mem, .refl⟩
    | some above =>
      rw [parent] at held
      obtain ⟨owner, foundOwner, -⟩ := op?_of_region held
      obtain ⟨root, inBody, encloses⟩ := ih above (forest.older id op above found parent) foundOwner
      exact ⟨root, inBody, encloses.tail ⟨op, found, parent⟩⟩

/-- Children have higher places than their parents, so that the depth left at a place need not exceed the
places above it. -/
theorem deep_region (forest : p.Forest) (found : p.op? id = some op) {depth : Nat}
    (deep : p.ops.size ≤ id + (depth + 1)) : ∀ inner ∈ op.region, p.ops.size ≤ inner + depth := by
  intro inner inside
  have above := forest.lt_of_isParent ((forest.isParent_iff found).mpr inside)
  omega

/-- A walk that is deep enough meets what the operations of the region enclose. -/
theorem mem_walkRegion (forest : p.Forest) {depth : Nat} {region : List OpId}
    (deep : ∀ id ∈ region, p.ops.size ≤ id + depth) :
    child ∈ p.walkRegion depth region ↔
      ∃ id ∈ region, p.isLive id = true ∧ p.Encloses id child := by
  induction depth generalizing region with
  | zero =>
    constructor
    · intro mem
      cases mem
    · rintro ⟨id, mem, live, -⟩
      obtain ⟨op, found⟩ := isLive_iff.mp live
      exact absurd (op?_lt found) (Nat.not_lt_of_le (deep id mem))
  | succ depth ih =>
    have below : ∀ id op, id ∈ region → p.op? id = some op →
        (child ∈ p.walkRegion depth op.region ↔
          ∃ inner ∈ op.region, p.isLive inner = true ∧ p.Encloses inner child) := by
      intro id op mem found
      exact ih (forest.deep_region found (deep id mem))
    rw [walkRegion, List.mem_flatMap]
    constructor
    · rintro ⟨id, mem, visited⟩
      cases found : p.op? id with
      | none => simp [found] at visited
      | some op =>
        simp only [found] at visited
        refine ⟨id, mem, isLive_iff.mpr ⟨op, found⟩, ?_⟩
        rcases List.mem_cons.mp visited with rfl | nested
        · exact .refl
        · obtain ⟨inner, inOp, -, encloses⟩ := (below id op mem found).mp nested
          exact encloses.head ((forest.isParent_iff found).mpr inOp)
    · rintro ⟨id, mem, live, encloses⟩
      obtain ⟨op, found⟩ := isLive_iff.mp live
      refine ⟨id, mem, ?_⟩
      simp only [found]
      rcases Relation.ReflTransGen.cases_head_iff.mp encloses with rfl | ⟨inner, isParent, rest⟩
      · exact List.mem_cons_self
      · have inOp := (forest.isParent_iff found).mp isParent
        obtain ⟨innerOp, foundInner, -⟩ := isParent
        exact List.mem_cons_of_mem _ ((below id op mem found).mpr
          ⟨inner, inOp, isLive_iff.mpr ⟨innerOp, foundInner⟩, rest⟩)

/-- What is visited for an operation is enclosed by it. -/
theorem encloses_of_visit (forest : p.Forest) (found : p.op? id = some op) {depth : Nat}
    (deep : p.ops.size ≤ id + (depth + 1)) {visited : OpId}
    (mem : visited ∈ id :: p.walkRegion depth op.region) : p.Encloses id visited := by
  rcases List.mem_cons.mp mem with rfl | nested
  · exact .refl
  · obtain ⟨inner, inside, -, encloses⟩ := (forest.mem_walkRegion (forest.deep_region found deep)).mp nested
    exact encloses.head ((forest.isParent_iff found).mpr inside)

theorem nodup_walkRegion (forest : p.Forest) {depth : Nat} {region : List OpId}
    {owner : Option OpId} (nodup : region.Nodup)
    (held : ∀ id ∈ region, ∃ op, p.op? id = some op ∧ op.parent = owner)
    (deep : ∀ id ∈ region, p.ops.size ≤ id + depth) : (p.walkRegion depth region).Nodup := by
  induction depth generalizing region owner with
  | zero => exact List.nodup_nil
  | succ depth ih =>
    rw [walkRegion, List.nodup_flatMap]
    constructor
    · intro id mem
      obtain ⟨op, found, -⟩ := held id mem
      have deeper := forest.deep_region found (deep id mem)
      simp only [found]
      refine List.nodup_cons.mpr ⟨?_, ?_⟩
      · intro again
        obtain ⟨inner, inOp, -, encloses⟩ := (forest.mem_walkRegion deeper).mp again
        have low := forest.lt_of_isParent ((forest.isParent_iff found).mpr inOp)
        have high := forest.le_of_encloses encloses
        omega
      · have region := region_of_op? found
        exact ih (forest.nodup _ _ region) (forest.inside _ _ region) deeper
    · apply nodup.imp_of_mem
      intro a b memA memB apart x inA inB
      obtain ⟨first, foundA, parentA⟩ := held a memA
      obtain ⟨second, foundB, parentB⟩ := held b memB
      simp only [foundA] at inA
      simp only [foundB] at inB
      exact apart (forest.eq_of_encloses foundA foundB (parentA.trans parentB.symm)
        (forest.encloses_of_visit foundA (deep a memA) inA)
        (forest.encloses_of_visit foundB (deep b memB) inB))

theorem deep_body (p : Program) : ∀ id ∈ p.body, p.ops.size ≤ id + p.ops.size := by
  intro id _
  omega

/-- A walk meets the live operations. -/
theorem mem_walk_iff (forest : p.Forest) : id ∈ p.walk ↔ p.isLive id = true := by
  rw [walk, forest.mem_walkRegion (deep_body p)]
  constructor
  · rintro ⟨root, -, live, encloses⟩
    exact live_of_encloses encloses live
  · intro live
    obtain ⟨op, found⟩ := isLive_iff.mp live
    obtain ⟨root, inBody, encloses⟩ := forest.exists_root found
    obtain ⟨rootOp, foundRoot, -⟩ := forest.inside none p.body rfl root inBody
    exact ⟨root, inBody, isLive_iff.mpr ⟨rootOp, foundRoot⟩, encloses⟩

theorem mem_walk_of_op? (forest : p.Forest) (found : p.op? id = some op) : id ∈ p.walk :=
  forest.mem_walk_iff.mpr (isLive_iff.mpr ⟨op, found⟩)

/-- The table leads from a result to its operation. -/
theorem value?_of_mem_results (forest : p.Forest) (found : p.op? id = some op) {v : ValueId}
    (mem : v ∈ op.results) : ∃ ty index, p.value? v = some ⟨ty, .result id index⟩ := by
  obtain ⟨index, listed⟩ := List.getElem?_of_mem mem
  obtain ⟨ty, entry⟩ := forest.results id op found index v listed
  exact ⟨ty, index, entry⟩

/-- A walk meets no operation twice. -/
theorem nodup_walk (forest : p.Forest) : p.walk.Nodup :=
  forest.nodup_walkRegion (forest.nodup none p.body rfl) (forest.inside none p.body rfl) (deep_body p)

end Forest

theorem WellFormed.value?_of_mem_args (wf : p.WellFormed) (found : p.op? id = some op) {v : ValueId}
    (mem : v ∈ op.args) : ∃ ty index, p.value? v = some ⟨ty, .arg id index⟩ := by
  obtain ⟨index, listed⟩ := List.getElem?_of_mem mem
  obtain ⟨ty, entry⟩ := wf.args id op found index v listed
  exact ⟨ty, index, entry⟩

theorem countP_isSome {α : Type} (slots : List (Option α)) :
    slots.countP Option.isSome =
      ((List.range slots.length).filter fun index => (slots[index]?.join).isSome).length := by
  induction slots using List.reverseRecOn with
  | nil => rfl
  | append_singleton front slot ih =>
    have same : (List.range front.length).filter (fun index =>
        ((front ++ [slot])[index]?.join).isSome) =
        (List.range front.length).filter fun index => (front[index]?.join).isSome := by
      apply List.filter_congr
      intro index mem
      rw [List.getElem?_append_left (List.mem_range.mp mem)]
    rw [List.countP_append, ih, List.length_append, List.length_singleton, List.range_succ,
      List.filter_append, same, List.length_append]
    cases slot <;> simp

theorem numOps_eq (p : Program) :
    p.numOps = ((List.range p.ops.size).filter p.isLive).length := by
  unfold numOps
  rw [← Array.countP_toList, countP_isSome]
  simp only [Array.length_toList, Array.getElem?_toList]
  rfl

/-- A walk is as long as there are live operations. -/
theorem Forest.length_walk (forest : p.Forest) : p.walk.length = p.numOps := by
  rw [numOps_eq]
  apply List.Perm.length_eq
  rw [List.perm_ext_iff_of_nodup forest.nodup_walk (List.nodup_range.filter _)]
  intro id
  rw [forest.mem_walk_iff, List.mem_filter, List.mem_range]
  constructor
  · intro live
    obtain ⟨op, found⟩ := isLive_iff.mp live
    exact ⟨op?_lt found, live⟩
  · exact And.right

/-- A live operation occurs once in the region of its parent, and in no other region. -/
theorem Forest.count_eq (forest : p.Forest) (found : p.op? id = some op) {parent : Option OpId}
    {region : List OpId} (held : p.region parent = .ok region) :
    region.count id = if parent = op.parent then 1 else 0 := by
  by_cases here : parent = op.parent
  · obtain ⟨same, heldSame, mem⟩ := forest.placed id op found
    rw [← here, held] at heldSame
    cases heldSame
    rw [if_pos here]
    exact List.count_eq_one_of_mem (forest.nodup parent region held) mem
  · rw [if_neg here, List.count_eq_zero]
    intro mem
    obtain ⟨same, foundSame, isParent⟩ := forest.inside parent region held id mem
    rw [found] at foundSame
    cases foundSame
    exact here isParent.symm

theorem region_append_eq (p : Program) (op : Op) (infos : List ValueInfo) (parent : Option OpId) :
    (p.append op infos).region parent =
      if parent = some p.ops.size then .ok op.region else p.region parent := by
  cases parent with
  | none => rfl
  | some id =>
    simp only [region, op?_append, Option.some.injEq]
    by_cases last : id = p.ops.size
    · simp [last]
    · simp [last]

theorem region_modifyRegion (p : Program) (parent : Option OpId) (change : List OpId → List OpId)
    (other : Option OpId) :
    (p.modifyRegion parent change).region other =
      if other = parent then (p.region other).map change else p.region other := by
  cases other with
  | none =>
    simp only [region, body_modifyRegion, eq_comm]
    split <;> rfl
  | some id =>
    simp only [region, op?_modifyRegion]
    by_cases same : parent = some id
    · subst same
      rw [if_pos rfl, if_pos rfl]
      cases p.op? id <;> rfl
    · rw [if_neg same, if_neg (Ne.symm same)]

theorem region_of_clear {ids : List OpId} {parent : Option OpId} {region : List OpId}
    (found : (p.clear ids).region parent = .ok region) :
    p.region parent = .ok region ∧ ∀ id, parent = some id → id ∉ ids := by
  cases parent with
  | none => exact ⟨found, by simp⟩
  | some id =>
    obtain ⟨op, here, rfl⟩ := op?_of_region found
    rw [op?_clear] at here
    by_cases cleared : id ∈ ids
    · simp [cleared] at here
    · rw [if_neg cleared] at here
      refine ⟨region_of_op? here, ?_⟩
      rintro other ⟨⟩
      exact cleared

/-- What the arena and the table of values know of two operations is the same. -/
structure Alike (op kept : Op) : Prop where
  results : kept.results = op.results
  region : kept.region = op.region
  args : kept.args = op.args
  parent : kept.parent = op.parent

theorem Alike.symm {kept : Op} (same : Alike op kept) : Alike kept op :=
  ⟨same.results.symm, same.region.symm, same.args.symm, same.parent.symm⟩

/-- Programs with alike operations have the same regions. -/
theorem region_of_alike {q : Program} (body : q.body = p.body)
    (alike : ∀ id op, p.op? id = some op → ∃ kept, q.op? id = some kept ∧ Alike op kept)
    {parent : Option OpId} {region : List OpId} (held : p.region parent = .ok region) :
    q.region parent = .ok region := by
  cases parent with
  | none => rw [← held, Program.region, Program.region, body]
  | some id =>
    obtain ⟨op, found, rfl⟩ := op?_of_region held
    obtain ⟨kept, here, same⟩ := alike id op found
    rw [← same.region]
    exact region_of_op? here

theorem Alike.refl (op : Op) : Alike op op := ⟨rfl, rfl, rfl, rfl⟩

theorem exists_alike {slot other : Option Op} (alike : Option.Rel Alike slot other) {kept : Op}
    (found : other = some kept) : ∃ op, slot = some op ∧ Alike op kept := by
  cases alike with
  | none => cases found
  | some same =>
    cases found
    exact ⟨_, rfl, same⟩

/-- The forest stays whatever becomes of kinds and operands. -/
theorem Forest.of_alike {q : Program} (forest : p.Forest) (body : q.body = p.body)
    (values : q.values = p.values) (alike : ∀ id, Option.Rel Alike (p.op? id) (q.op? id)) :
    q.Forest := by
  have forth : ∀ id op, p.op? id = some op → ∃ kept, q.op? id = some kept ∧ Alike op kept := by
    intro id op found
    have related := alike id
    rw [found] at related
    cases here : q.op? id with
    | none => simp [here] at related
    | some kept =>
      rw [here, Option.rel_some_some] at related
      exact ⟨kept, rfl, related⟩
  have regions : ∀ parent region, q.region parent = .ok region → p.region parent = .ok region := by
    intro parent region held
    refine region_of_alike body.symm (fun id kept found => ?_) held
    obtain ⟨op, here, same⟩ := exists_alike (alike id) found
    exact ⟨op, here, same.symm⟩
  constructor
  · intro parent region held id mem
    obtain ⟨op, found, isParent⟩ := forest.inside parent region (regions parent region held) id mem
    obtain ⟨kept, here, same⟩ := forth id op found
    exact ⟨kept, here, same.parent.trans isParent⟩
  · intro id kept found
    obtain ⟨op, here, same⟩ := exists_alike (alike id) found
    obtain ⟨region, held, mem⟩ := forest.placed id op here
    rw [same.parent]
    exact ⟨region, region_of_alike body forth held, mem⟩
  · intro parent region held
    exact forest.nodup parent region (regions parent region held)
  · intro id kept parent found isParent
    obtain ⟨op, here, same⟩ := exists_alike (alike id) found
    exact forest.older id op parent here (same.parent.symm.trans isParent)
  · intro id kept found index value listed
    obtain ⟨op, here, same⟩ := exists_alike (alike id) found
    simp only [value?, values]
    exact forest.results id op here index value (same.results ▸ listed)

theorem WellFormed.of_alike {q : Program} (wf : p.WellFormed) (body : q.body = p.body)
    (values : q.values = p.values) (alike : ∀ id, Option.Rel Alike (p.op? id) (q.op? id)) :
    q.WellFormed where
  toForest := wf.toForest.of_alike body values alike
  args id kept found index value listed := by
    obtain ⟨op, here, same⟩ := exists_alike (alike id) found
    simp only [value?, values]
    exact wf.args id op here index value (same.args ▸ listed)

theorem alike_setKind (p : Program) (id : OpId) (kind : OpKind) (other : OpId) :
    Option.Rel Alike (p.op? other) ((p.setKind id kind).op? other) := by
  rw [Program.setKind, op?_modifyOp]
  by_cases same : other = id
  · rw [if_pos same]
    cases p.op? other with
    | none => exact .none
    | some op => exact .some ⟨rfl, rfl, rfl, rfl⟩
  · rw [if_neg same]
    cases p.op? other with
    | none => exact .none
    | some op => exact .some (.refl op)

theorem alike_replaceUses (p : Program) (old new : ValueId) (id : OpId) :
    Option.Rel Alike (p.op? id) ((p.replaceUses old new).op? id) := by
  rw [op?_replaceUses]
  cases p.op? id with
  | none => exact .none
  | some op => exact .some ⟨rfl, rfl, rfl, rfl⟩

theorem Forest.setKind (forest : p.Forest) (id : OpId) (kind : OpKind) : (p.setKind id kind).Forest :=
  forest.of_alike rfl rfl (alike_setKind p id kind)

theorem WellFormed.setKind (wf : p.WellFormed) (id : OpId) (kind : OpKind) :
    (p.setKind id kind).WellFormed :=
  wf.of_alike rfl rfl (alike_setKind p id kind)

theorem Forest.replaceUses (forest : p.Forest) (old new : ValueId) : (p.replaceUses old new).Forest :=
  forest.of_alike rfl rfl (alike_replaceUses p old new)

theorem WellFormed.replaceUses (wf : p.WellFormed) (old new : ValueId) :
    (p.replaceUses old new).WellFormed :=
  wf.of_alike rfl rfl (alike_replaceUses p old new)

/-- A new operation in the region of its parent, with entries in the table of values. -/
def grow (p : Program) (op : Op) (infos : List ValueInfo) (change : List OpId → List OpId) :
    Program :=
  (p.append op infos).modifyRegion op.parent change

section

variable {region : List OpId} {infos : List ValueInfo} {change : List OpId → List OpId}

theorem op?_grow_new (held : p.region op.parent = .ok region) :
    (p.grow op infos change).op? p.ops.size = some op := by
  rw [grow, op?_modifyRegion, if_neg (ne_of_region held), op?_append, if_pos rfl]

/-- An old operation stays, with more in its region if it is the parent of the new one. -/
theorem op?_grow_old {old : Op} (found : p.op? id = some old) (op : Op) (infos : List ValueInfo)
    (change : List OpId → List OpId) :
    ∃ inside, (p.grow op infos change).op? id = some { old with region := inside } := by
  rw [grow, op?_modifyRegion, op?_append_of_some found]
  by_cases owner : op.parent = some id
  · rw [if_pos owner]
    exact ⟨change old.region, rfl⟩
  · rw [if_neg owner]
    exact ⟨old.region, rfl⟩

theorem op?_of_grow {kept : Op} (found : (p.grow op infos change).op? id = some kept)
    (apart : id ≠ p.ops.size) :
    ∃ old, p.op? id = some old ∧ ∃ inside, kept = { old with region := inside } := by
  cases here : p.op? id with
  | none =>
    rw [grow, op?_modifyRegion, op?_append, if_neg apart, here] at found
    simp at found
  | some old =>
    obtain ⟨inside, same⟩ := op?_grow_old here op infos change
    rw [same] at found
    cases found
    exact ⟨old, rfl, inside, rfl⟩

/-- An operation after the insertion is the new one or an old one. -/
theorem op?_grow_cases (held : p.region op.parent = .ok region) {kept : Op}
    (found : (p.grow op infos change).op? id = some kept) :
    (id = p.ops.size ∧ kept = op) ∨
      ∃ old inside, p.op? id = some old ∧ kept = { old with region := inside } := by
  by_cases last : id = p.ops.size
  · rw [last, op?_grow_new held] at found
    exact Or.inl ⟨last, (Option.some.inj found).symm⟩
  · obtain ⟨old, here, inside, same⟩ := op?_of_grow found last
    exact Or.inr ⟨old, inside, here, same⟩

theorem region_grow (held : p.region op.parent = .ok region) (other : Option OpId) :
    (p.grow op infos change).region other =
      if other = some p.ops.size then .ok op.region
      else if other = op.parent then .ok (change region) else p.region other := by
  have outside := ne_of_region held
  rw [grow, region_modifyRegion, region_append_eq]
  by_cases last : other = some p.ops.size
  · have apart : other ≠ op.parent := fun same => outside (same.symm.trans last)
    rw [if_neg apart, if_pos last, if_pos last]
  · rw [if_neg last, if_neg last]
    by_cases same : other = op.parent
    · rw [if_pos same, if_pos same, same, held]
      rfl
    · rw [if_neg same, if_neg same]

theorem region_grow_parent (held : p.region op.parent = .ok region) :
    (p.grow op infos change).region op.parent = .ok (change region) := by
  rw [region_grow held, if_neg (ne_of_region held), if_pos rfl]

/-- A region after the insertion is that of the new operation, the one that it went into, or an old
one. -/
theorem region_grow_cases (held : p.region op.parent = .ok region) {other : Option OpId}
    {inside : List OpId} (found : (p.grow op infos change).region other = .ok inside) :
    inside = op.region ∨ (other = op.parent ∧ inside = change region) ∨
      p.region other = .ok inside := by
  rw [region_grow held] at found
  split at found
  · cases found
    exact Or.inl rfl
  · split at found
    · rename_i same
      cases found
      exact Or.inr (Or.inl ⟨same, rfl⟩)
    · exact Or.inr (Or.inr found)

theorem value?_grow (value : ValueId) :
    (p.grow op infos change).value? value = (p.append op infos).value? value := by
  simp only [value?, grow, values_modifyRegion]

theorem value?_grow_old {value : ValueId} {info : ValueInfo} (found : p.value? value = some info) :
    (p.grow op infos change).value? value = some info := by
  rw [value?_grow, value?_append_of_lt (value?_lt found), found]

/-- The new operation has an empty region, and its results have their entries. -/
theorem Forest.grow (forest : p.Forest) (op : Op) (held : p.region op.parent = .ok region)
    (adds : (change region).Perm (p.ops.size :: region)) (empty : op.region = [])
    (results : ∀ index value, op.results[index]? = some value →
      ∃ ty, (p.append op infos).value? value = some ⟨ty, .result p.ops.size index⟩) :
    (p.grow op infos change).Forest := by
  have listed : ∀ parent inside, p.region parent = .ok inside → ∀ id ∈ inside,
      ∃ old, (p.grow op infos change).op? id = some old ∧ old.parent = parent := by
    intro parent inside found id mem
    obtain ⟨old, here, isParent⟩ := forest.inside parent inside found id mem
    obtain ⟨more, same⟩ := op?_grow_old here op infos change
    exact ⟨_, same, isParent⟩
  have fresh : p.ops.size ∉ region := by
    intro mem
    obtain ⟨old, here, -⟩ := forest.inside op.parent region held p.ops.size mem
    exact Nat.lt_irrefl _ (op?_lt here)
  constructor
  · intro parent inside found id mem
    rcases region_grow_cases held found with rfl | ⟨rfl, rfl⟩ | before
    · rw [empty] at mem
      cases mem
    · rcases List.mem_cons.mp (adds.mem_iff.mp mem) with rfl | before
      · exact ⟨op, op?_grow_new held, rfl⟩
      · exact listed op.parent region held id before
    · exact listed parent inside before id mem
  · intro id final found
    rcases op?_grow_cases held found with ⟨rfl, rfl⟩ | ⟨old, inside, before, rfl⟩
    · exact ⟨change region, region_grow_parent held, adds.mem_iff.mpr List.mem_cons_self⟩
    · obtain ⟨holding, heldOld, mem⟩ := forest.placed id old before
      by_cases same : old.parent = op.parent
      · rw [same, held] at heldOld
        cases heldOld
        refine ⟨change region, ?_, adds.mem_iff.mpr (List.mem_cons_of_mem _ mem)⟩
        rw [same]
        exact region_grow_parent held
      · refine ⟨holding, ?_, mem⟩
        rw [region_grow held, if_neg (ne_of_region heldOld), if_neg same]
        exact heldOld
  · intro parent inside found
    rcases region_grow_cases held found with rfl | ⟨-, rfl⟩ | before
    · rw [empty]
      exact List.nodup_nil
    · rw [adds.nodup_iff, List.nodup_cons]
      exact ⟨fresh, forest.nodup op.parent region held⟩
    · exact forest.nodup parent inside before
  · intro id final above found isAbove
    rcases op?_grow_cases held found with ⟨rfl, rfl⟩ | ⟨old, inside, before, rfl⟩
    · rw [isAbove] at held
      obtain ⟨owner, foundOwner, -⟩ := op?_of_region held
      exact op?_lt foundOwner
    · exact forest.older id old above before isAbove
  · intro id final found index value here
    rcases op?_grow_cases held found with ⟨rfl, rfl⟩ | ⟨old, inside, before, rfl⟩
    · rw [value?_grow]
      exact results index value here
    · obtain ⟨ty, entry⟩ := forest.results id old before index value here
      exact ⟨ty, value?_grow_old entry⟩

/-- Parameters keep their entries, and those of the new operation have theirs. -/
theorem WellFormed.args_grow (wf : p.WellFormed) (held : p.region op.parent = .ok region)
    (args : ∀ index value, op.args[index]? = some value →
      ∃ ty, (p.append op infos).value? value = some ⟨ty, .arg p.ops.size index⟩) :
    ∀ id final, (p.grow op infos change).op? id = some final →
      ∀ index value, final.args[index]? = some value →
        ∃ ty, (p.grow op infos change).value? value = some ⟨ty, .arg id index⟩ := by
  intro id final found index value here
  rcases op?_grow_cases held found with ⟨rfl, rfl⟩ | ⟨old, inside, before, rfl⟩
  · rw [value?_grow]
    exact args index value here
  · obtain ⟨ty, entry⟩ := wf.args id old before index value here
    exact ⟨ty, value?_grow_old entry⟩

theorem WellFormed.grow (wf : p.WellFormed) (op : Op) (held : p.region op.parent = .ok region)
    (adds : (change region).Perm (p.ops.size :: region)) (empty : op.region = [])
    (results : ∀ index value, op.results[index]? = some value →
      ∃ ty, (p.append op infos).value? value = some ⟨ty, .result p.ops.size index⟩)
    (args : ∀ index value, op.args[index]? = some value →
      ∃ ty, (p.append op infos).value? value = some ⟨ty, .arg p.ops.size index⟩) :
    (p.grow op infos change).WellFormed where
  toForest := wf.toForest.grow op held adds empty results
  args := wf.args_grow held args

end

theorem insertAt_perm (items : List OpId) (index : Nat) (item : OpId) :
    (insertAt items index item).Perm (item :: items) := by
  have split : (insertAt items index item).Perm (item :: (items.take index ++ items.drop index)) :=
    List.perm_middle
  rwa [List.take_append_drop] at split

/-- The next values have the entries that are put into the table for them. -/
theorem value?_nextValues {infos : List ValueInfo} {index : Nat} {value : ValueId}
    (listed : (p.nextValues infos.length)[index]? = some value) :
    (p.append op infos).value? value = infos[index]? := by
  obtain ⟨inside, same⟩ := List.getElem?_eq_some_iff.mp listed
  rw [← same, ← value?_append_new p op infos index]
  simp [nextValues]

theorem result_of_nextValues {types : List Ty} {index : Nat} {value : ValueId}
    (listed : (p.nextValues types.length)[index]? = some value) :
    ∃ ty, (p.append op (resultInfos p.ops.size types)).value? value =
      some ⟨ty, .result p.ops.size index⟩ := by
  obtain ⟨inside, -⟩ := List.getElem?_eq_some_iff.mp listed
  have here : index < types.length := by simpa [nextValues] using inside
  rw [← length_resultInfos p.ops.size types] at listed
  refine ⟨types[index], ?_⟩
  rw [value?_nextValues listed]
  simp [resultInfos, here]

theorem arg_of_nextValues {types : List Ty} {index : Nat} {value : ValueId}
    (listed : (p.nextValues types.length)[index]? = some value) :
    ∃ ty, (p.append op (argInfos p.ops.size types)).value? value =
      some ⟨ty, .arg p.ops.size index⟩ := by
  obtain ⟨inside, -⟩ := List.getElem?_eq_some_iff.mp listed
  have here : index < types.length := by simpa [nextValues] using inside
  rw [← length_argInfos p.ops.size types] at listed
  refine ⟨types[index], ?_⟩
  rw [value?_nextValues listed]
  simp [argInfos, here]

/-- What was there before an insertion is there after it, with more in its region if it is the parent. -/
theorem op?_of_inserted {parent : Option OpId} {index : Nat} {types : List Ty} {kept : Op}
    (found : (p.inserted parent index op types).op? id = some kept) (apart : id ≠ p.ops.size) :
    ∃ old, p.op? id = some old ∧ ∃ inside, kept = { old with region := inside } := by
  rw [inserted, ← grow] at found
  exact op?_of_grow found apart

theorem Forest.inserted (forest : p.Forest) {parent : Option OpId} {region : List OpId}
    (held : p.region parent = .ok region) (empty : op.region = []) (index : Nat) (types : List Ty) :
    (p.inserted parent index op types).Forest := by
  apply forest.grow { op with parent, results := p.nextValues types.length } held
  · exact insertAt_perm region index p.ops.size
  · exact empty
  · intro index value listed
    exact result_of_nextValues listed

theorem WellFormed.inserted (wf : p.WellFormed) {parent : Option OpId} {region : List OpId}
    (held : p.region parent = .ok region) (empty : op.region = []) (noArgs : op.args = [])
    (index : Nat) (types : List Ty) : (p.inserted parent index op types).WellFormed where
  toForest := wf.toForest.inserted held empty index types
  args := by
    apply wf.args_grow held
    intro index value listed
    simp [noArgs] at listed

/-- An insertion that succeeds is into a region that there is. -/
theorem eq_inserted_of_insert {q : Program} {parent : Option OpId} {index : Nat} {types : List Ty}
    (done : p.insert parent index op types = .ok (id, q)) :
    (∃ region, p.region parent = .ok region) ∧ q = p.inserted parent index op types := by
  cases held : p.region parent with
  | error reason => simp [Program.insert, held] at done
  | ok region =>
    rw [insert_eq held] at done
    cases done
    exact ⟨⟨region, rfl⟩, rfl⟩

theorem Forest.insert (forest : p.Forest) {q : Program} {parent : Option OpId} {index : Nat}
    {types : List Ty} (empty : op.region = []) (done : p.insert parent index op types = .ok (id, q)) :
    q.Forest := by
  obtain ⟨⟨region, held⟩, rfl⟩ := eq_inserted_of_insert done
  exact forest.inserted held empty index types

theorem WellFormed.insert (wf : p.WellFormed) {q : Program} {parent : Option OpId} {index : Nat}
    {types : List Ty} (empty : op.region = []) (noArgs : op.args = [])
    (done : p.insert parent index op types = .ok (id, q)) : q.WellFormed := by
  obtain ⟨⟨region, held⟩, rfl⟩ := eq_inserted_of_insert done
  exact wf.inserted held empty noArgs index types

/-- To append an operation is to insert it at the end. -/
theorem insert_of_push {q : Program} {parent : Option OpId} {types : List Ty}
    (done : p.push parent op types = .ok (id, q)) :
    ∃ index, p.insert parent index op types = .ok (id, q) := by
  unfold Program.push at done
  split at done
  · cases done
  · exact ⟨_, done⟩

theorem addFunction_eq_grow (p : Program) (sym : String) (types : List Ty) (loc : Option Loc) :
    (p.addFunction sym types loc).2.2 =
      p.grow { kind := .func sym, args := p.nextValues types.length, loc }
        (argInfos p.ops.size types) (· ++ [p.ops.size]) := rfl

theorem Forest.addFunction (forest : p.Forest) (sym : String) (types : List Ty) (loc : Option Loc) :
    (p.addFunction sym types loc).2.2.Forest := by
  rw [addFunction_eq_grow]
  apply forest.grow _ rfl
  · exact List.perm_append_singleton p.ops.size p.body
  · rfl
  · intro index value listed
    simp at listed

theorem WellFormed.addFunction (wf : p.WellFormed) (sym : String) (types : List Ty)
    (loc : Option Loc) : (p.addFunction sym types loc).2.2.WellFormed where
  toForest := wf.toForest.addFunction sym types loc
  args := by
    rw [addFunction_eq_grow]
    apply wf.args_grow rfl
    intro index value listed
    exact arg_of_nextValues listed

theorem wellFormed_empty (name : String) : ({ name } : Program).WellFormed := by
  have none : ∀ id, ({ name } : Program).op? id = none := fun id => op?_eq_none_of_le (Nat.zero_le id)
  refine ⟨⟨?_, ?_, ?_, ?_, ?_⟩, ?_⟩
  · intro parent region held id mem
    cases parent with
    | none =>
      cases held
      cases mem
    | some owner => simp [Program.region, none] at held
  · intro id op found
    simp [none] at found
  · intro parent region held
    cases parent with
    | none =>
      cases held
      exact List.nodup_nil
    | some owner => simp [Program.region, none] at held
  · intro id op parent found
    simp [none] at found
  · intro id op found
    simp [none] at found
  · intro id op found
    simp [none] at found

theorem WellFormed.addStmt (wf : p.WellFormed) {parent : Option OpId} {region : List OpId}
    (held : p.region parent = .ok region) {s : Stmt}
    (numbered : NumberedFrom p.values.size s.defs) : (p.addStmt parent s).WellFormed := by
  have defs : s.defs = p.nextValues s.types.length := by
    rw [Stmt.length_types, ← Stmt.length_defs]
    exact numbered
  apply wf.grow (s.toOp parent none) held
  · exact List.perm_append_singleton _ _
  · rfl
  · intro index value listed
    rw [Stmt.results_toOp, defs] at listed
    exact result_of_nextValues listed
  · intro index value listed
    cases listed

theorem WellFormed.addFunc (wf : p.WellFormed) (sym : String) {params : List (ValueId × Ty)}
    (numbered : NumberedFrom p.values.size (params.map Prod.fst)) :
    (p.addFunc sym params).WellFormed := by
  have defs : params.map Prod.fst = p.nextValues (params.map Prod.snd).length := by
    rw [List.length_map, ← List.length_map Prod.fst]
    exact numbered
  apply wf.grow (funcOp sym params [] none) rfl
  · exact List.perm_append_singleton p.ops.size p.body
  · rfl
  · intro index value listed
    cases listed
  · intro index value listed
    have listed : (params.map Prod.fst)[index]? = some value := listed
    rw [defs] at listed
    exact arg_of_nextValues listed

theorem WellFormed.addStmts (wf : p.WellFormed) {parent : Option OpId} {region : List OpId}
    (held : p.region parent = .ok region) {stmts : List Stmt}
    (numbered : NumberedFrom p.values.size (stmts.flatMap Stmt.defs)) :
    (stmts.foldl (Program.addStmt parent) p).WellFormed := by
  induction stmts generalizing p region with
  | nil => exact wf
  | cons s rest ih =>
    rw [List.flatMap_cons, NumberedFrom.append_iff, ← size_values_addStmt parent] at numbered
    have grown : (p.addStmt parent s).region parent = .ok (region ++ [p.ops.size]) := by
      have owner : p.region (s.toOp parent none).parent = .ok region := held
      have grows : p.addStmt parent s = p.grow (s.toOp parent none)
        (resultInfos p.ops.size s.types) (· ++ [p.ops.size]) := rfl
      rw [grows, region_grow owner, if_neg (ne_of_region held), Stmt.parent_toOp, if_pos rfl]
    exact ih (wf.addStmt held numbered.1) grown numbered.2

theorem WellFormed.addItem (wf : p.WellFormed) {item : Item}
    (numbered : NumberedFrom p.values.size item.defs) : (p.addItem item).WellFormed := by
  cases item with
  | op s =>
    have held : p.region none = .ok p.body := rfl
    exact wf.addStmt held numbered
  | func sym params body =>
    rw [Item.defs, NumberedFrom.append_iff, List.length_map,
      ← size_values_addFunc p sym params] at numbered
    have owner : p.region (funcOp sym params [] none).parent = .ok p.body := rfl
    have new : (p.addFunc sym params).op? p.ops.size = some (funcOp sym params [] none) :=
      op?_grow_new owner
    exact (wf.addFunc sym numbered.1).addStmts (region_of_op? new) numbered.2

theorem WellFormed.addItems (wf : p.WellFormed) {o : Outline}
    (numbered : NumberedFrom p.values.size o.defs) : (o.foldl Program.addItem p).WellFormed := by
  induction o generalizing p with
  | nil => exact wf
  | cons item rest ih =>
    rw [Outline.defs_cons, NumberedFrom.append_iff, ← size_values_addItem] at numbered
    exact ih (wf.addItem numbered.1) numbered.2

theorem WellFormed.of_eraseLocs (wf : p.eraseLocs.WellFormed) : p.WellFormed := by
  refine wf.of_alike (q := p) rfl rfl fun id => ?_
  rw [op?_eraseLocs]
  cases p.op? id with
  | none => exact .none
  | some op => exact .some ⟨rfl, rfl, rfl, rfl⟩

/-- A program that an outline is read as is well-formed, whatever the locations. -/
theorem wellFormed_of_build {o : Outline} (numbered : NumberedFrom 0 o.defs)
    (built : p.eraseLocs = build p.name o) : p.WellFormed := by
  apply WellFormed.of_eraseLocs
  rw [built]
  exact (wellFormed_empty p.name).addItems numbered

theorem Forest.mem_subtree (forest : p.Forest) (found : p.op? id = some op) {child : OpId} :
    child ∈ p.subtree id ↔ p.Encloses id child := by
  rw [subtree, forest.mem_walkRegion (by intro other _; omega)]
  constructor
  · rintro ⟨same, mem, -, encloses⟩
    rwa [List.mem_singleton.mp mem] at encloses
  · intro encloses
    exact ⟨id, List.mem_singleton_self id, isLive_iff.mpr ⟨op, found⟩, encloses⟩

/-- What is enclosed by an operation and is not the operation has a parent that is enclosed too. -/
theorem Forest.parent_mem_subtree (forest : p.Forest) (found : p.op? id = some op)
    {child : OpId} {inner : Op} (here : p.op? child = some inner) (apart : child ≠ id)
    (inside : child ∈ p.subtree id) : ∃ parent, inner.parent = some parent ∧ parent ∈ p.subtree id := by
  rcases Relation.ReflTransGen.cases_tail_iff _ _ _ |>.mp ((forest.mem_subtree found).mp inside) with
    same | ⟨parent, encloses, again, foundAgain, isParent⟩
  · exact absurd same apart
  · rw [here] at foundAgain
    cases foundAgain
    exact ⟨parent, isParent, (forest.mem_subtree found).mpr encloses⟩

def without (p : Program) (id : OpId) (op : Op) : Program :=
  (p.modifyRegion op.parent (·.filter (· ≠ id))).clear (p.subtree id)

theorem erase_eq (found : p.op? id = some op) (held : ∃ region, p.region op.parent = .ok region) :
    p.erase id = .ok (op, p.without id op) := by
  obtain ⟨region, held⟩ := held
  simp only [erase, found, held]
  rfl

/-- What can be erased is live, and in a region that there is. -/
theorem eq_without_of_erase {q : Program} (done : p.erase id = .ok (op, q)) :
    p.op? id = some op ∧ q = p.without id op := by
  unfold erase at done
  split at done
  · cases done
  · rename_i found
    split at done
    · cases done
    · cases done
      exact ⟨found, rfl⟩

/-- A live operation can be erased: its parent is live, or it is in the body. -/
theorem Forest.exists_region (forest : p.Forest) (found : p.op? id = some op) :
    ∃ region, p.region op.parent = .ok region := by
  obtain ⟨region, held, -⟩ := forest.placed id op found
  exact ⟨region, held⟩

theorem op?_without (p : Program) (id : OpId) (op : Op) (other : OpId) :
    (p.without id op).op? other =
      if other ∈ p.subtree id then none
      else if op.parent = some other then
        (p.op? other).map fun op => { op with region := op.region.filter (· ≠ id) }
      else p.op? other := by
  rw [without, op?_clear, op?_modifyRegion]

/-- What is left was there before, with less in its region if it was the parent. -/
theorem op?_of_without {kept : Op} {other : OpId} (found : (p.without id op).op? other = some kept) :
    other ∉ p.subtree id ∧
      ∃ old, p.op? other = some old ∧ ∃ inside, kept = { old with region := inside } := by
  rw [op?_without] at found
  by_cases gone : other ∈ p.subtree id
  · simp [gone] at found
  · rw [if_neg gone] at found
    refine ⟨gone, ?_⟩
    by_cases owner : op.parent = some other
    · rw [if_pos owner] at found
      obtain ⟨old, here, rfl⟩ := Option.map_eq_some_iff.mp found
      exact ⟨old, here, _, rfl⟩
    · rw [if_neg owner] at found
      exact ⟨kept, found, kept.region, rfl⟩

theorem op?_without_old {old : Op} {other : OpId} (op : Op) (found : p.op? other = some old)
    (outside : other ∉ p.subtree id) :
    ∃ inside, (p.without id op).op? other = some { old with region := inside } := by
  rw [op?_without, if_neg outside, found]
  by_cases owner : op.parent = some other
  · rw [if_pos owner]
    exact ⟨_, rfl⟩
  · rw [if_neg owner]
    exact ⟨old.region, rfl⟩

theorem region_without {parent : Option OpId} {region : List OpId}
    (found : (p.without id op).region parent = .ok region) :
    (∀ owner, parent = some owner → owner ∉ p.subtree id) ∧ ∃ before, p.region parent = .ok before ∧
      region = if parent = op.parent then before.filter (· ≠ id) else before := by
  obtain ⟨held, outside⟩ := region_of_clear found
  refine ⟨outside, ?_⟩
  rw [region_modifyRegion] at held
  by_cases same : parent = op.parent
  · rw [if_pos same] at held
    cases before : p.region parent with
    | error reason => simp [before, Except.map] at held
    | ok inside =>
      rw [before] at held
      cases held
      exact ⟨inside, rfl, by rw [if_pos same]⟩
  · rw [if_neg same] at held
    exact ⟨region, held, by rw [if_neg same]⟩

theorem region_without_old {parent : Option OpId} {region : List OpId}
    (held : p.region parent = .ok region)
    (outside : ∀ owner, parent = some owner → owner ∉ p.subtree id) :
    (p.without id op).region parent =
      .ok (if parent = op.parent then region.filter (· ≠ id) else region) := by
  cases parent with
  | none =>
    cases held
    have body : (p.without id op).body =
        if op.parent = none then p.body.filter (· ≠ id) else p.body := body_modifyRegion _ _ _
    simp only [Program.region, body, eq_comm]
  | some owner =>
    obtain ⟨old, found, rfl⟩ := op?_of_region held
    simp only [Program.region, op?_without, if_neg (outside owner rfl), found]
    by_cases same : op.parent = some owner
    · rw [if_pos same, if_pos same.symm]
      rfl
    · rw [if_neg same, if_neg (Ne.symm same)]

theorem value?_without (value : ValueId) : (p.without id op).value? value = p.value? value := by
  simp only [value?, without, clear, values_modifyRegion]

/-- What is left of a region that stays lies outside of what was erased. -/
theorem Forest.not_mem_subtree (forest : p.Forest) (found : p.op? id = some op) {other : OpId}
    {old : Op} (here : p.op? other = some old) (apart : other ≠ id)
    (outside : ∀ owner, old.parent = some owner → owner ∉ p.subtree id) : other ∉ p.subtree id := by
  intro inside
  obtain ⟨above, isParent, enclosed⟩ := forest.parent_mem_subtree found here apart inside
  exact outside above isParent enclosed

/-- The parent of what stays stays. -/
theorem Forest.parent_not_mem_subtree (forest : p.Forest) (found : p.op? id = some op)
    {other : OpId} {old : Op} (here : p.op? other = some old) (outside : other ∉ p.subtree id)
    {parent : OpId} (isParent : old.parent = some parent) : parent ∉ p.subtree id := by
  intro inside
  have encloses := (forest.mem_subtree found).mp inside
  exact outside ((forest.mem_subtree found).mpr (encloses.tail ⟨old, here, isParent⟩))

theorem Forest.without (forest : p.Forest) (found : p.op? id = some op) :
    (p.without id op).Forest := by
  constructor
  · intro parent region held other mem
    obtain ⟨outside, before, heldBefore, same⟩ := region_without held
    have inBefore : other ∈ before := by
      rw [same] at mem
      split at mem
      · exact List.mem_of_mem_filter mem
      · exact mem
    obtain ⟨old, here, isParent⟩ := forest.inside parent before heldBefore other inBefore
    have apart : other ≠ id := by
      rintro rfl
      rw [found] at here
      cases here
      rw [same, if_pos isParent.symm] at mem
      simp at mem
    rw [← isParent] at outside
    obtain ⟨inside, kept⟩ := op?_without_old op here (forest.not_mem_subtree found here apart outside)
    exact ⟨_, kept, isParent⟩
  · intro other kept here
    obtain ⟨outside, old, foundOld, inside, rfl⟩ := op?_of_without here
    obtain ⟨region, held, mem⟩ := forest.placed other old foundOld
    have above : ∀ owner, old.parent = some owner → owner ∉ p.subtree id := fun _ isParent =>
      forest.parent_not_mem_subtree found foundOld outside isParent
    refine ⟨_, region_without_old held above, ?_⟩
    have apart : other ≠ id := by
      rintro rfl
      exact outside ((forest.mem_subtree found).mpr .refl)
    split
    · exact List.mem_filter.mpr ⟨mem, by simpa using apart⟩
    · exact mem
  · intro parent region held
    obtain ⟨-, before, heldBefore, same⟩ := region_without held
    have nodup := forest.nodup parent before heldBefore
    rw [same]
    split
    · exact nodup.filter _
    · exact nodup
  · intro other kept parent here isParent
    obtain ⟨-, old, foundOld, inside, rfl⟩ := op?_of_without here
    exact forest.older other old parent foundOld isParent
  · intro other kept here index value listed
    obtain ⟨-, old, foundOld, inside, rfl⟩ := op?_of_without here
    rw [value?_without]
    exact forest.results other old foundOld index value listed

theorem WellFormed.without (wf : p.WellFormed) (found : p.op? id = some op) :
    (p.without id op).WellFormed where
  toForest := wf.toForest.without found
  args other kept here index value listed := by
    obtain ⟨-, old, foundOld, inside, rfl⟩ := op?_of_without here
    rw [value?_without]
    exact wf.args other old foundOld index value listed

theorem Forest.erase (forest : p.Forest) {q : Program} (done : p.erase id = .ok (op, q)) :
    q.Forest := by
  obtain ⟨found, rfl⟩ := eq_without_of_erase done
  exact forest.without found

theorem WellFormed.erase (wf : p.WellFormed) {q : Program} (done : p.erase id = .ok (op, q)) :
    q.WellFormed := by
  obtain ⟨found, rfl⟩ := eq_without_of_erase done
  exact wf.without found

/-- What each change of uses keeps, a change of the uses of several values keeps. -/
theorem holds_rewire {holds : Program → Prop}
    (kept : ∀ p old new, holds p → holds (Program.replaceUses p old new)) (held : holds p)
    (pairs : List (ValueId × ValueId)) :
    holds (pairs.foldl (fun p (old, new) => p.replaceUses old new) p) := by
  induction pairs generalizing p with
  | nil => exact held
  | cons pair rest ih => exact ih (kept p pair.1 pair.2 held)

theorem WellFormed.rewire (wf : p.WellFormed) (pairs : List (ValueId × ValueId)) :
    (pairs.foldl (fun p (old, new) => p.replaceUses old new) p).WellFormed :=
  holds_rewire (fun _ old new wf => wf.replaceUses old new) wf pairs

/-- To replace an operation is to erase it after a change of uses. -/
theorem erase_of_replace {q : Program} {values : List ValueId} (done : p.replace id values = .ok q) :
    ∃ (pairs : List (ValueId × ValueId)) (op : Op),
      (pairs.foldl (fun p (old, new) => p.replaceUses old new) p).erase id = .ok (op, q) := by
  unfold Program.replace at done
  split at done
  · cases done
  · rename_i op _
    obtain ⟨result, erased, rfl⟩ := map_eq_ok.mp done
    exact ⟨op.results.zip values, result.1, erased⟩

theorem WellFormed.replace (wf : p.WellFormed) {q : Program} {values : List ValueId}
    (done : p.replace id values = .ok q) : q.WellFormed := by
  obtain ⟨pairs, op, erased⟩ := erase_of_replace done
  exact (wf.rewire pairs).erase erased

end

end RngLowering.Program
