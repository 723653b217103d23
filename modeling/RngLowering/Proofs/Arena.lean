import RngLowering.Program.Edit

set_option autoImplicit false

namespace RngLowering.Program

theorem op?_lt {p : Program} {id : OpId} {op : Op} (found : p.op? id = some op) :
    id < p.ops.size := by
  unfold op? at found
  by_cases inside : id < p.ops.size
  · exact inside
  · simp [Array.getElem?_eq_none (Nat.le_of_not_lt inside)] at found

theorem op?_eq_none_of_le {p : Program} {id : OpId} (outside : p.ops.size ≤ id) :
    p.op? id = none := by
  simp [op?, Array.getElem?_eq_none outside]

theorem value?_lt {p : Program} {value : ValueId} {info : ValueInfo}
    (found : p.value? value = some info) : value < p.values.size := by
  obtain ⟨inside, -⟩ := Array.getElem?_eq_some_iff.mp found
  exact inside

theorem typeOf_congr {p q : Program} {value : ValueId} (same : p.value? value = q.value? value) :
    p.typeOf value = q.typeOf value := by
  unfold typeOf
  rw [same]

theorem typeOf_eq_ok {p : Program} {value : ValueId} {ty : Ty} :
    p.typeOf value = .ok ty ↔ ∃ origin, p.value? value = some ⟨ty, origin⟩ := by
  unfold typeOf
  split
  · rename_i info found
    constructor
    · intro same
      cases same
      exact ⟨info.origin, by rw [found]⟩
    · rintro ⟨origin, same⟩
      rw [found] at same
      cases same
      rfl
  · rename_i missing
    constructor
    · intro absurd
      cases absurd
    · rintro ⟨origin, same⟩
      rw [missing] at same
      cases same

/-- A value keeps its type with its entry in the table. -/
theorem typeOf_of_kept {p q : Program} {value : ValueId} {ty : Ty}
    (kept : ∀ info, p.value? value = some info → q.value? value = some info)
    (typed : p.typeOf value = .ok ty) : q.typeOf value = .ok ty := by
  obtain ⟨origin, entry⟩ := typeOf_eq_ok.mp typed
  exact typeOf_eq_ok.mpr ⟨origin, kept _ entry⟩

theorem typeOf_lt {p : Program} {value : ValueId} {ty : Ty} (typed : p.typeOf value = .ok ty) :
    value < p.values.size := by
  obtain ⟨origin, found⟩ := typeOf_eq_ok.mp typed
  exact value?_lt found

theorem appendList_eq {α : Type} (items : Array α) (more : List α) :
    items ++ more = items ++ more.toArray :=
  Array.ext' (by simp)

def append (p : Program) (op : Op) (infos : List ValueInfo) : Program :=
  { p with ops := p.ops.push (some op), values := p.values ++ infos }

@[simp] theorem size_ops_append (p : Program) (op : Op) (infos : List ValueInfo) :
    (p.append op infos).ops.size = p.ops.size + 1 := by
  simp [append]

@[simp] theorem size_values_append (p : Program) (op : Op) (infos : List ValueInfo) :
    (p.append op infos).values.size = p.values.size + infos.length := by
  simp [append, appendList_eq]

@[simp] theorem body_append (p : Program) (op : Op) (infos : List ValueInfo) :
    (p.append op infos).body = p.body := rfl

theorem op?_append (p : Program) (op : Op) (infos : List ValueInfo) (id : OpId) :
    (p.append op infos).op? id = if id = p.ops.size then some op else p.op? id := by
  unfold op? append
  by_cases last : id = p.ops.size
  · simp [last]
  · simp [last, Array.getElem?_push]

theorem op?_append_of_some {p : Program} {id : OpId} {old : Op} (found : p.op? id = some old)
    (op : Op) (infos : List ValueInfo) : (p.append op infos).op? id = some old := by
  rw [op?_append, if_neg (Nat.ne_of_lt (op?_lt found)), found]

theorem value?_append_of_lt {p : Program} {value : ValueId} (inside : value < p.values.size)
    (op : Op) (infos : List ValueInfo) : (p.append op infos).value? value = p.value? value := by
  simp [value?, append, appendList_eq, Array.getElem?_append_left inside]

theorem typeOf_append_of_ok {p : Program} {value : ValueId} {ty : Ty}
    (typed : p.typeOf value = .ok ty) (op : Op) (infos : List ValueInfo) :
    (p.append op infos).typeOf value = .ok ty := by
  rw [typeOf_congr (value?_append_of_lt (typeOf_lt typed) op infos), typed]

theorem value?_append_new (p : Program) (op : Op) (infos : List ValueInfo) (index : Nat) :
    (p.append op infos).value? (p.values.size + index) = infos[index]? := by
  simp [value?, append, appendList_eq, Array.getElem?_append_right]

theorem op?_modifyOp (p : Program) (id other : OpId) (change : Op → Op) :
    (p.modifyOp id change).op? other =
      if other = id then (p.op? other).map change else p.op? other := by
  unfold op? modifyOp
  simp only [Array.getElem?_modify]
  by_cases same : id = other
  · subst same
    cases p.ops[id]? <;> simp
  · simp [same, Ne.symm same]

@[simp] theorem size_ops_modifyOp (p : Program) (id : OpId) (change : Op → Op) :
    (p.modifyOp id change).ops.size = p.ops.size := by
  simp [modifyOp]

@[simp] theorem values_modifyRegion (p : Program) (parent : Option OpId)
    (change : List OpId → List OpId) : (p.modifyRegion parent change).values = p.values := by
  cases parent <;> rfl

@[simp] theorem size_ops_modifyRegion (p : Program) (parent : Option OpId)
    (change : List OpId → List OpId) :
    (p.modifyRegion parent change).ops.size = p.ops.size := by
  cases parent with
  | none => rfl
  | some id => exact size_ops_modifyOp p id _

@[simp] theorem name_modifyRegion (p : Program) (parent : Option OpId)
    (change : List OpId → List OpId) : (p.modifyRegion parent change).name = p.name := by
  cases parent <;> rfl

theorem op?_modifyRegion (p : Program) (parent : Option OpId) (change : List OpId → List OpId)
    (id : OpId) :
    (p.modifyRegion parent change).op? id =
      if parent = some id then (p.op? id).map fun op => { op with region := change op.region }
      else p.op? id := by
  cases parent with
  | none => rfl
  | some owner =>
    simp only [modifyRegion, op?_modifyOp, Option.some.injEq]
    by_cases same : id = owner
    · simp [same]
    · simp [same, Ne.symm same]

theorem body_modifyRegion (p : Program) (parent : Option OpId)
    (change : List OpId → List OpId) :
    (p.modifyRegion parent change).body = if parent = none then change p.body else p.body := by
  cases parent <;> rfl

theorem typeOf_modifyRegion (p : Program) (parent : Option OpId)
    (change : List OpId → List OpId) (value : ValueId) :
    (p.modifyRegion parent change).typeOf value = p.typeOf value :=
  typeOf_congr (by simp [value?])

theorem op?_clear (p : Program) (ids : List OpId) (id : OpId) :
    (p.clear ids).op? id = if id ∈ ids then none else p.op? id := by
  induction ids generalizing p with
  | nil => rfl
  | cons head rest ih =>
    have next : p.clear (head :: rest) = (p.clear [head]).clear rest := rfl
    have one : (p.clear [head]).op? id = if id = head then none else p.op? id := by
      simp only [clear, op?, List.foldl_cons, List.foldl_nil, Array.getElem?_setIfInBounds]
      by_cases same : head = id
      · subst same
        by_cases inside : head < p.ops.size
        · simp [inside]
        · simp [inside]
      · simp [same, Ne.symm same]
    rw [next, ih, one]
    by_cases inRest : id ∈ rest
    · simp [inRest]
    · by_cases same : id = head
      · simp [same]
      · simp [inRest, same]

theorem size_ops_clear (p : Program) (ids : List OpId) :
    (p.clear ids).ops.size = p.ops.size := by
  have kept : ∀ ops : Array (Option Op),
      (ids.foldl (fun ops id => ops.setIfInBounds id none) ops).size = ops.size := by
    induction ids with
    | nil => exact fun ops => rfl
    | cons head rest ih => exact fun ops => by rw [List.foldl_cons, ih, Array.size_setIfInBounds]
  exact kept p.ops

theorem op?_replaceUses (p : Program) (old new : ValueId) (id : OpId) :
    (p.replaceUses old new).op? id = (p.op? id).map (·.replaceUse old new) := by
  simp only [op?, replaceUses, Array.getElem?_map]
  cases p.ops[id]? with
  | none => rfl
  | some slot => cases slot <;> rfl

@[simp] theorem size_ops_replaceUses (p : Program) (old new : ValueId) :
    (p.replaceUses old new).ops.size = p.ops.size := by
  simp [replaceUses]

end RngLowering.Program
