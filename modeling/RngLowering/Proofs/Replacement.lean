import RngLowering.Proofs.Erasure

set_option autoImplicit false

namespace RngLowering

def swaps (pairs : List (ValueId × ValueId)) (v : ValueId) : ValueId :=
  pairs.foldl (fun v pair => swap pair.1 pair.2 v) v

@[simp] theorem swaps_cons (pair : ValueId × ValueId) (rest : List (ValueId × ValueId)) (v : ValueId) :
    swaps (pair :: rest) v = swaps rest (swap pair.1 pair.2 v) := rfl

theorem swaps_of_not_mem {pairs : List (ValueId × ValueId)} {v : ValueId}
    (outside : v ∉ pairs.map Prod.fst) : swaps pairs v = v := by
  induction pairs with
  | nil => rfl
  | cons pair rest ih =>
    rw [List.map_cons, List.mem_cons, not_or] at outside
    rw [swaps_cons, swap_of_ne outside.1, ih outside.2]

/-- `σ` takes each result to the value at the same index, as far as both go, and no other value
anywhere. -/
structure Substitutes (results values : List ValueId) (σ : ValueId → ValueId) : Prop where
  result : ∀ (index : Nat) r v, results[index]? = some r → values[index]? = some v → σ r = v
  other : ∀ w, (∀ index < min results.length values.length, results[index]? ≠ some w) → σ w = w

section

variable {results values : List ValueId}

/-- A value that was put in is not taken for a result again. -/
theorem swaps_zip_of_not_mem {v : ValueId} (outside : v ∉ results) :
    swaps (results.zip values) v = v := by
  apply swaps_of_not_mem
  intro mem
  obtain ⟨pair, listed, rfl⟩ := List.mem_map.mp mem
  exact outside (List.of_mem_zip listed).1

theorem swaps_zip (nodup : results.Nodup) (apart : ∀ v ∈ values, v ∉ results) {index : Nat}
    {r v : ValueId} (old : results[index]? = some r) (new : values[index]? = some v) :
    swaps (results.zip values) r = v := by
  -- a pair before the index is about another result, and those after it leave a value that is no result
  induction results generalizing values index with
  | nil => cases old
  | cons first rest ih =>
    obtain ⟨notLater, nodupRest⟩ := List.nodup_cons.mp nodup
    cases values with
    | nil => cases new
    | cons value more =>
      rw [List.zip_cons_cons, swaps_cons]
      cases index with
      | zero =>
        cases old
        cases new
        have outside : v ∉ rest := fun mem =>
          apart v List.mem_cons_self (List.mem_cons_of_mem _ mem)
        rw [swap_self, swaps_zip_of_not_mem outside]
      | succ index =>
        have later : r ∈ rest := List.mem_of_getElem? old
        have ne : r ≠ first := by
          rintro rfl
          exact notLater later
        rw [swap_of_ne ne]
        exact ih nodupRest (fun v mem inRest =>
          apart v (List.mem_cons_of_mem _ mem) (List.mem_cons_of_mem _ inRest)) old new

/-- One after another is all at once. -/
theorem substitutes_swaps (nodup : results.Nodup) (apart : ∀ v ∈ values, v ∉ results) :
    Substitutes results values (swaps (results.zip values)) where
  result _ _ _ old new := swaps_zip nodup apart old new
  other := by
    intro w missing
    apply swaps_of_not_mem
    intro mem
    obtain ⟨pair, listed, rfl⟩ := List.mem_map.mp mem
    obtain ⟨index, inside, here⟩ := List.getElem_of_mem listed
    obtain ⟨old, -⟩ := List.getElem?_zip_eq_some.mp (List.getElem?_eq_some_iff.mpr ⟨inside, here⟩)
    rw [List.length_zip] at inside
    exact missing index inside old

end

def Op.mapOperands (σ : ValueId → ValueId) (op : Op) : Op :=
  { op with operands := op.operands.map σ }

namespace Program

def mapOperands (σ : ValueId → ValueId) (p : Program) : Program :=
  { p with ops := p.ops.map (·.map (·.mapOperands σ)) }

theorem mapOperands_id (p : Program) : p.mapOperands id = p := by
  have same : (fun op => Op.mapOperands id op) = id := by
    funext op
    simp [Op.mapOperands]
  simp [mapOperands, same]

theorem mapOperands_replaceUses (p : Program) (old new : ValueId) (σ : ValueId → ValueId) :
    (p.replaceUses old new).mapOperands σ = p.mapOperands fun v => σ (swap old new v) := by
  simp [mapOperands, replaceUses, Op.mapOperands, Op.replaceUse, swap, Function.comp_def]

/-- Changes of uses one after another are one change of operands. -/
theorem rewire_eq (p : Program) (pairs : List (ValueId × ValueId)) :
    pairs.foldl (fun p pair => p.replaceUses pair.1 pair.2) p = p.mapOperands (swaps pairs) := by
  induction pairs generalizing p with
  | nil => exact p.mapOperands_id.symm
  | cons pair rest ih => exact (ih _).trans (mapOperands_replaceUses p pair.1 pair.2 _)

section

variable {p : Program} (σ : ValueId → ValueId)

theorem op?_mapOperands (id : OpId) :
    (p.mapOperands σ).op? id = (p.op? id).map (·.mapOperands σ) := by
  simp only [op?, mapOperands, Array.getElem?_map]
  cases p.ops[id]? <;> rfl

theorem op?_mapOperands_of_some {id : OpId} {op : Op} (found : p.op? id = some op) :
    (p.mapOperands σ).op? id = some (op.mapOperands σ) := by
  rw [op?_mapOperands, found]
  rfl

theorem isParent_mapOperands (parent child : OpId) :
    (p.mapOperands σ).IsParent parent child ↔ p.IsParent parent child := by
  simp only [IsParent, op?_mapOperands, Option.map_eq_some_iff]
  constructor
  · rintro ⟨_, ⟨op, found, rfl⟩, isParent⟩
    exact ⟨op, found, isParent⟩
  · rintro ⟨op, found, isParent⟩
    exact ⟨_, ⟨op, found, rfl⟩, isParent⟩

theorem encloses_mapOperands (id other : OpId) :
    (p.mapOperands σ).Encloses id other ↔ p.Encloses id other :=
  ⟨Relation.ReflTransGen.mono (fun a b => (isParent_mapOperands σ a b).mp) _ _,
    Relation.ReflTransGen.mono (fun a b => (isParent_mapOperands σ a b).mpr) _ _⟩

theorem walkRegion_mapOperands (depth : Nat) (region : List OpId) :
    (p.mapOperands σ).walkRegion depth region = p.walkRegion depth region := by
  induction depth generalizing region with
  | zero => rfl
  | succ depth ih =>
    simp only [walkRegion]
    apply List.flatMap_congr
    intro id _
    rw [op?_mapOperands]
    cases p.op? id with
    | none => rfl
    | some op => exact congrArg (id :: ·) (ih op.region)

theorem walk_mapOperands : (p.mapOperands σ).walk = p.walk := by
  rw [walk, walkRegion_mapOperands, walk, mapOperands, Array.size_map]

theorem WellFormed.mapOperands (wf : p.WellFormed) : (p.mapOperands σ).WellFormed := by
  refine wf.of_alike (q := p.mapOperands σ) rfl rfl fun id => ?_
  rw [op?_mapOperands]
  cases p.op? id with
  | none => exact .none
  | some op => exact .some ⟨rfl, rfl, rfl, rfl⟩

end

/-- The table of values tells the results of an operation apart. -/
theorem WellFormed.nodup_results {p : Program} (wf : p.WellFormed) {id : OpId} {op : Op}
    (found : p.op? id = some op) : op.results.Nodup := by
  rw [List.nodup_iff_getElem?_ne_getElem?]
  intro i j before inside same
  obtain ⟨ty, entry⟩ := wf.results id op found j _ (List.getElem?_eq_getElem inside)
  obtain ⟨other, entryOther⟩ := wf.results id op found i _ (same.trans (List.getElem?_eq_getElem inside))
  rw [entry] at entryOther
  cases entryOther
  exact Nat.lt_irrefl i before

open Classical in
/-- What is left of `p` without the operation at `id` and all that it encloses, where `σ` tells what is
used in the place of each value. -/
structure ReplacedBy (p : Program) (id : OpId) (op : Op) (σ : ValueId → ValueId) (q : Program) :
    Prop where
  name : q.name = p.name
  values : q.values = p.values
  size : q.ops.size = p.ops.size
  dead : ∀ other, q.op? other = none ↔ p.op? other = none ∨ p.Encloses id other
  kept : ∀ other old, p.op? other = some old → ¬ p.Encloses id other → q.op? other = some
    { old with
      operands := old.operands.map σ
      region := if op.parent = some other then old.region.erase id else old.region }
  body : q.body = if op.parent = none then p.body.erase id else p.body
  walk : q.walk = p.walk.filter fun other => ¬ p.Encloses id other

section

variable {p q : Program} {id : OpId} {op : Op} {σ : ValueId → ValueId}

/-- To use other values and then erase an operation changes operands and regions apart from each
other. -/
theorem Erased.replacedBy (erased : (p.mapOperands σ).Erased id (op.mapOperands σ) q) :
    p.ReplacedBy id op σ q where
  name := erased.name
  values := erased.values
  size := by rw [erased.size, mapOperands, Array.size_map]
  dead := by
    intro other
    rw [erased.dead, op?_mapOperands, Option.map_eq_none_iff, encloses_mapOperands]
  kept := by
    intro other old found outside
    have here := op?_mapOperands_of_some σ found
    rw [erased.kept other _ here (mt (encloses_mapOperands σ id other).mp outside)]
    have sameParent : (op.mapOperands σ).parent = op.parent := rfl
    rw [sameParent]
    by_cases owner : op.parent = some other
    · simp only [if_pos owner, Op.mapOperands]
    · simp only [if_neg owner, Op.mapOperands]
  body := erased.body
  walk := by
    rw [erased.walk, walk_mapOperands]
    apply List.filter_congr
    intro other _
    exact decide_eq_decide.mpr (not_congr (encloses_mapOperands σ id other))

/-- What is done one result after another is one change of all operands, before the operation is erased. -/
theorem replace_eq_mapOperands (wf : p.WellFormed) (found : p.op? id = some op)
    (values : List ValueId) :
    p.replace id values = .ok ((p.mapOperands (swaps (op.results.zip values))).without id
      (op.mapOperands (swaps (op.results.zip values)))) := by
  have here := op?_mapOperands_of_some (swaps (op.results.zip values)) found
  have erased := erase_eq here ((wf.mapOperands _).exists_region here)
  rw [← rewire_eq p (op.results.zip values)] at erased ⊢
  simp only [replace, found]
  exact map_eq_ok.mpr ⟨_, erased, rfl⟩

/-- To replace a live operation of a well-formed program by values that are not among its results is to
use, all at once, the value at the same index in the place of each result, as far as there are values, and
to take the operation away with all that it encloses. Nothing else changes. -/
theorem replace_simultaneous (wf : p.WellFormed) (found : p.op? id = some op) {values : List ValueId}
    (apart : ∀ v ∈ values, v ∉ op.results) :
    ∃ q σ, p.replace id values = .ok q ∧ Substitutes op.results values σ ∧ p.ReplacedBy id op σ q := by
  have erased := (wf.mapOperands (swaps (op.results.zip values))).erased_without
    (op?_mapOperands_of_some _ found)
  exact ⟨_, _, replace_eq_mapOperands wf found values,
    substitutes_swaps (wf.nodup_results found) apart, erased.replacedBy⟩

end

/-- An operation with three results is replaced by two values. What it encloses is gone with it, and an
operation after it uses the values, twice the first one, and the third result still. -/
theorem replace_simultaneous_three_results :
    let byte : Ty := .int ⟨8, .signless⟩
    let test (parent : OpId) (name : String) (operands : List ValueId) (types : List Ty) : Request :=
      .push (some parent) { kind := .bare name, operands } rfl types
    let p := Request.reach "in" [.addFunction "f" [byte, byte] none,
      test 0 "test.three" [0] [byte, byte, byte], test 1 "test.inner" [2] [],
      test 0 "test.user" [2, 3, 4, 2, 0] []]
    p.WellFormed ∧ ∃ op q σ, p.op? 1 = some op ∧ op.results = [2, 3, 4] ∧
      p.replace 1 [1, 0] = .ok q ∧ Substitutes op.results [1, 0] σ ∧ p.ReplacedBy 1 op σ q ∧
      q.walk = [0, 3] ∧ (q.op? 3).map Op.operands = some [1, 0, 4, 1, 0] := by
  intro byte test p
  have wf : p.WellFormed := wellFormed_reach _ _ rfl
  have live : (p.op? 1).map Op.results = some [2, 3, 4] := by decide +kernel
  obtain ⟨op, found, results⟩ := Option.map_eq_some_iff.mp live
  have apart : ∀ v ∈ [1, 0], v ∉ op.results := by
    rw [results]
    decide
  obtain ⟨q, σ, done, substitutes, replaced⟩ := replace_simultaneous wf found apart
  have left : (p.replace 1 [1, 0]).toOption.map
      (fun after => (after.walk, (after.op? 3).map Op.operands)) =
      some ([0, 3], some [1, 0, 4, 1, 0]) := by decide +kernel
  rw [done] at left
  obtain ⟨walk, operands⟩ := Prod.mk.inj (Option.some.inj left)
  exact ⟨wf, op, q, σ, found, results, done, substitutes, replaced, walk, operands⟩

end Program

end RngLowering
