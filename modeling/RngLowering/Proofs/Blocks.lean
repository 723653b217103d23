import RngLowering.Proofs.Expansion
import RngLowering.Proofs.WellFormed

set_option autoImplicit false

namespace RngLowering

namespace Program

/-- Put statements into a region one after another, from an index on. -/
def place (p : Program) (parent : Option OpId) (loc : Option Loc) (index : Nat) :
    List Stmt → Program
  | [] => p
  | s :: rest =>
    (p.inserted parent index { kind := s.kind, operands := s.operands, loc } s.types).place parent loc
      (index + 1) rest

section

variable {p : Program} {parent : Option OpId} {loc : Option Loc} {index : Nat} {stmts : List Stmt}
  {front back : List OpId} {id : OpId}

theorem place_append (first second : List Stmt) :
    p.place parent loc index (first ++ second) =
      (p.place parent loc index first).place parent loc (index + first.length) second := by
  induction first generalizing p index with
  | nil => rfl
  | cons s rest ih => rw [List.cons_append, place, ih, place, List.length_cons, Nat.add_right_comm,
      Nat.add_assoc index]

@[simp] theorem size_ops_place :
    (p.place parent loc index stmts).ops.size = p.ops.size + stmts.length := by
  induction stmts generalizing p index with
  | nil => rfl
  | cons s rest ih =>
    rw [place, ih, size_ops_inserted, List.length_cons]
    omega

@[simp] theorem size_values_place :
    (p.place parent loc index stmts).values.size =
      p.values.size + (stmts.flatMap Stmt.defs).length := by
  induction stmts generalizing p index with
  | nil => rfl
  | cons s rest ih =>
    rw [place, ih, size_values_inserted, List.flatMap_cons, List.length_append, Stmt.length_types,
      Stmt.length_defs]
    omega

theorem region_inserted (held : p.region parent = .ok front) (op : Op) (types : List Ty)
    (other : Option OpId) :
    (p.inserted parent index op types).region other =
      if other = some p.ops.size then .ok op.region
      else if other = parent then .ok (insertAt front index p.ops.size) else p.region other := by
  have owner : p.region ({ op with parent, results := p.nextValues types.length } : Op).parent =
      .ok front := held
  exact region_grow owner other

/-- New operations stand in a row where they were placed. -/
theorem region_place (held : p.region parent = .ok (front ++ back)) (loc : Option Loc)
    (stmts : List Stmt) :
    (p.place parent loc front.length stmts).region parent =
      .ok (front ++ List.range' p.ops.size stmts.length ++ back) := by
  induction stmts generalizing p front with
  | nil => simpa [place] using held
  | cons s rest ih =>
    have next : (p.inserted parent front.length { kind := s.kind, operands := s.operands, loc }
        s.types).region parent = .ok ((front ++ [p.ops.size]) ++ back) := by
      rw [region_inserted held, if_neg (ne_of_region held), if_pos rfl, insertAt_append]
    have placed := ih next
    rw [List.length_append, List.length_singleton, size_ops_inserted] at placed
    rw [place, placed, List.length_cons, List.range'_succ]
    simp

theorem exists_region_inserted (held : ∃ region, p.region parent = .ok region) (op : Op)
    (types : List Ty) : ∃ region, (p.inserted parent index op types).region parent = .ok region := by
  obtain ⟨region, held⟩ := held
  rw [region_inserted held, if_neg (ne_of_region held), if_pos rfl]
  exact ⟨_, rfl⟩

theorem exists_region_place (held : ∃ region, p.region parent = .ok region) :
    ∃ region, (p.place parent loc index stmts).region parent = .ok region := by
  induction stmts generalizing p index with
  | nil => exact held
  | cons s rest ih => exact ih (exists_region_inserted held _ _)

/-- The other regions stay as they are. -/
theorem region_place_other (held : ∃ region, p.region parent = .ok region) {other : Option OpId}
    (apart : other ≠ parent) {inside : List OpId} (heldOther : p.region other = .ok inside)
    (loc : Option Loc) (index : Nat) (stmts : List Stmt) :
    (p.place parent loc index stmts).region other = .ok inside := by
  induction stmts generalizing p index with
  | nil => exact heldOther
  | cons s rest ih =>
    refine ih (exists_region_inserted held _ _) ?_ (index + 1)
    obtain ⟨region, held⟩ := held
    rw [region_inserted held, if_neg (ne_of_region heldOther), if_neg apart, heldOther]

theorem op?_inserted_of_ne (apart : id ≠ p.ops.size) (parent : Option OpId) (index : Nat) (op : Op)
    (types : List Ty) :
    (p.inserted parent index op types).op? id =
      if parent = some id then
        (p.op? id).map fun old => { old with region := insertAt old.region index p.ops.size }
      else p.op? id := by
  rw [inserted, op?_modifyRegion, op?_append, if_neg apart]

/-- An operation that is not the parent stays as it is. -/
theorem op?_place_other {old : Op} (apart : parent ≠ some id) (found : p.op? id = some old)
    (loc : Option Loc) (index : Nat) (stmts : List Stmt) :
    (p.place parent loc index stmts).op? id = some old := by
  induction stmts generalizing p index with
  | nil => exact found
  | cons s rest ih =>
    apply ih
    rw [op?_inserted_of_ne (Nat.ne_of_lt (op?_lt found)), if_neg apart, found]

/-- An operation that was there stays, with more in its region if it is the parent. -/
theorem op?_place_old {old : Op} (found : p.op? id = some old) (parent : Option OpId)
    (loc : Option Loc) (index : Nat) (stmts : List Stmt) :
    ∃ inside, (p.place parent loc index stmts).op? id = some { old with region := inside } := by
  induction stmts generalizing p old index with
  | nil => exact ⟨old.region, found⟩
  | cons s rest ih =>
    have kept := op?_inserted_of_ne (Nat.ne_of_lt (op?_lt found)) parent index
      { kind := s.kind, operands := s.operands, loc } s.types
    by_cases owner : parent = some id
    · rw [if_pos owner, found, Option.map_some] at kept
      obtain ⟨inside, placed⟩ := ih kept (index + 1)
      exact ⟨inside, placed⟩
    · rw [if_neg owner, found] at kept
      exact ih kept (index + 1)

theorem op?_place_none (inside : id < p.ops.size) (missing : p.op? id = none) :
    (p.place parent loc index stmts).op? id = none := by
  induction stmts generalizing p index with
  | nil => exact missing
  | cons s rest ih =>
    apply ih
    · rw [size_ops_inserted]
      exact Nat.lt_succ_of_lt inside
    · rw [op?_inserted_of_ne (Nat.ne_of_lt inside), missing]
      split <;> rfl

theorem isLive_place (inside : id < p.ops.size) :
    (p.place parent loc index stmts).isLive id = p.isLive id := by
  cases here : p.op? id with
  | none => rw [isLive, isLive, op?_place_none inside here, here]
  | some old =>
    obtain ⟨more, kept⟩ := op?_place_old here parent loc index stmts
    rw [isLive, isLive, kept, here]
    rfl

/-- The table of values keeps its entries. -/
theorem value?_place_old {v : ValueId} {info : ValueInfo} (entry : p.value? v = some info)
    (parent : Option OpId) (loc : Option Loc) (index : Nat) (stmts : List Stmt) :
    (p.place parent loc index stmts).value? v = some info := by
  induction stmts generalizing p index with
  | nil => exact entry
  | cons s rest ih =>
    refine ih ?_ (index + 1)
    rw [inserted, ← grow]
    exact value?_grow_old entry

theorem types_place_old {v : ValueId} {ty : Ty} (typed : p.typeOf v = .ok ty)
    (parent : Option OpId) (loc : Option Loc) (index : Nat) (stmts : List Stmt) :
    (p.place parent loc index stmts).typeOf v = .ok ty :=
  typeOf_of_kept (fun _ entry => value?_place_old entry parent loc index stmts) typed

/-- A statement whose results are the next values is what is inserted for it. -/
theorem nextStmt_eq {s : Stmt} (numbered : NumberedFrom p.values.size s.defs) :
    p.nextStmt s.kind s.operands s.types = s := by
  have results : (p.nextValues s.types.length).zip s.types = s.results := by
    have defs : p.nextValues s.types.length = s.defs := by
      rw [numbered, nextValues, Stmt.length_types, Stmt.length_defs]
    rw [defs, Stmt.defs, Stmt.types, ← List.zip_of_prod rfl rfl]
  rw [nextStmt, results]

theorem numbered_tail {s : Stmt} {rest : List Stmt}
    (numbered : NumberedFrom p.values.size ((s :: rest).flatMap Stmt.defs)) (parent : Option OpId)
    (index : Nat) (op : Op) :
    NumberedFrom p.values.size s.defs ∧
      NumberedFrom (p.inserted parent index op s.types).values.size (rest.flatMap Stmt.defs) := by
  rw [List.flatMap_cons, NumberedFrom.append_iff] at numbered
  rw [size_values_inserted, Stmt.length_types, ← Stmt.length_defs]
  exact numbered

/-- What was placed are the statements, in order. -/
theorem op?_place_new (held : ∃ region, p.region parent = .ok region)
    (numbered : NumberedFrom p.values.size (stmts.flatMap Stmt.defs)) {offset : Nat} {s : Stmt}
    (listed : stmts[offset]? = some s) (loc : Option Loc) (index : Nat) :
    (p.place parent loc index stmts).op? (p.ops.size + offset) = some (s.toOp parent loc) := by
  induction stmts generalizing p index offset with
  | nil => cases listed
  | cons head rest ih =>
    obtain ⟨first, later⟩ := numbered_tail numbered parent index
      { kind := head.kind, operands := head.operands, loc }
    cases offset with
    | zero =>
      obtain ⟨region, held⟩ := held
      have new := op?_inserted_new held index head.kind head.operands loc head.types
      rw [nextStmt_eq first] at new
      cases listed
      exact op?_place_other (ne_of_region held) new loc (index + 1) rest
    | succ offset =>
      have placed := ih (exists_region_inserted held _ _) later listed (index + 1)
      rw [size_ops_inserted, Nat.add_right_comm, Nat.add_assoc] at placed
      exact placed

/-- An operation of the edited program was there before, or is one of the statements. -/
theorem op?_of_place (held : ∃ region, p.region parent = .ok region)
    (numbered : NumberedFrom p.values.size (stmts.flatMap Stmt.defs)) {kept : Op}
    (found : (p.place parent loc index stmts).op? id = some kept) :
    (∃ old inside, p.op? id = some old ∧ kept = { old with region := inside }) ∨
      p.ops.size ≤ id ∧ ∃ s ∈ stmts, kept = s.toOp parent loc := by
  by_cases before : id < p.ops.size
  · left
    cases here : p.op? id with
    | none =>
      rw [op?_place_none before here] at found
      cases found
    | some old =>
      obtain ⟨inside, same⟩ := op?_place_old here parent loc index stmts
      rw [found] at same
      exact ⟨old, inside, rfl, Option.some.inj same⟩
  · right
    have since : p.ops.size ≤ id := Nat.le_of_not_lt before
    have upTo := op?_lt found
    rw [size_ops_place] at upTo
    have inside : id - p.ops.size < stmts.length := Nat.sub_lt_left_of_lt_add since upTo
    have new := op?_place_new held numbered (List.getElem?_eq_getElem inside) loc index
    rw [Nat.add_sub_cancel' since, found] at new
    exact ⟨since, _, List.getElem_mem inside, Option.some.inj new⟩

/-- The results of what was placed have their types. -/
theorem types_place (numbered : NumberedFrom p.values.size (stmts.flatMap Stmt.defs)) :
    (p.place parent loc index stmts).Types (stmts.flatMap Stmt.results) := by
  induction stmts generalizing p index with
  | nil =>
    intro v ty mem
    cases mem
  | cons s rest ih =>
    obtain ⟨first, later⟩ := numbered_tail numbered parent index
      { kind := s.kind, operands := s.operands, loc }
    intro v ty mem
    rw [List.flatMap_cons, List.mem_append] at mem
    rcases mem with here | after
    · have types := types_inserted (p := p) parent index
        { kind := s.kind, operands := s.operands, loc } s.kind s.operands s.types
      rw [nextStmt_eq first] at types
      exact types_place_old (types v ty here) parent loc (index + 1) rest
    · exact ih later v ty after

theorem WellFormed.place (wf : p.WellFormed) (held : ∃ region, p.region parent = .ok region) :
    (p.place parent loc index stmts).WellFormed := by
  induction stmts generalizing p index with
  | nil => exact wf
  | cons s rest ih =>
    obtain ⟨region, here⟩ := held
    exact ih (wf.inserted here rfl rfl index s.types) (exists_region_inserted ⟨region, here⟩ _ _)

end

end Program

namespace Program

/-- The program with the counter cell, which is put first unless its name is defined. -/
def withCounter (p : Program) (config : Config) (loc : Option Loc) : Program :=
  if (p.lookupSymbol? config.stateSymbol).isSome then p
  else p.place none loc 0 [config.counterStmt]

section

variable {p : Program} {config : Config} {loc : Option Loc}

theorem withCounter_of_none (undefined : p.lookupSymbol? config.stateSymbol = none) :
    p.withCounter config loc = p.place none loc 0 [config.counterStmt] := by
  rw [withCounter, undefined]
  rfl

theorem withCounter_of_some {id : OpId} (defined : p.lookupSymbol? config.stateSymbol = some id) :
    p.withCounter config loc = p := by
  rw [withCounter, defined]
  rfl

theorem op?_withCounter (config : Config) (loc : Option Loc) {id : OpId} {op : Op}
    (found : p.op? id = some op) : (p.withCounter config loc).op? id = some op := by
  unfold withCounter
  split
  · exact found
  · exact op?_place_other (by simp) found loc 0 _

theorem WellFormed.withCounter (wf : p.WellFormed) (config : Config) (loc : Option Loc) :
    (p.withCounter config loc).WellFormed := by
  unfold Program.withCounter
  split
  · exact wf
  · exact wf.place ⟨_, rfl⟩

theorem values_withCounter (config : Config) (loc : Option Loc) :
    (p.withCounter config loc).values.size = p.values.size := by
  unfold withCounter
  split
  · rfl
  · rw [size_values_place]
    rfl

end

end Program

namespace Builder

def put (b : Builder) (stmts : List Stmt) : Builder :=
  { b with
    program := b.program.place b.parent b.loc b.index stmts
    index := b.index + stmts.length
    created := b.created ++ List.range' b.program.ops.size stmts.length }

/-- There is a region to build in, and `n` is the next value. -/
structure Open (b : Builder) (n : ValueId) : Prop where
  region : ∃ region, b.program.region b.parent = .ok region
  next : b.program.values.size = n

section

variable {b : Builder} {n : ValueId} {stmts : List Stmt}

@[simp] theorem put_nil : b.put [] = b := by
  simp [put, Program.place]

theorem put_put (first second : List Stmt) : (b.put first).put second = b.put (first ++ second) := by
  simp only [put, Program.place_append, Program.size_ops_place, List.length_append, Nat.add_assoc,
    List.append_assoc, List.range'_append_1]

theorem Open.put (isOpen : b.Open n) (stmts : List Stmt) :
    (b.put stmts).Open (n + (stmts.flatMap Stmt.defs).length) where
  region := Program.exists_region_place isOpen.region
  next := by rw [← isOpen.next]; exact Program.size_values_place

theorem typeOf_put {v : ValueId} {ty : Ty} (typed : b.program.typeOf v = .ok ty) :
    (b.put stmts).program.typeOf v = .ok ty :=
  Program.types_place_old typed _ _ _ _

/-- A value that was just built has its type. -/
theorem typeOf_put_next (isOpen : b.Open n) (kind : OpKind) (operands : List ValueId) (ty : Ty) :
    (b.put [⟨kind, operands, [(n, ty)]⟩]).program.typeOf n = .ok ty :=
  Program.types_place (by rw [isOpen.next]; rfl) n ty (by simp)

end

end Builder

namespace Build

variable {b : Builder} {n : ValueId}

theorem insert_eq (isOpen : b.Open n) (s : Stmt) :
    insert s.kind s.operands s.types b = .ok b.program.ops.size (b.put [s]) := by
  obtain ⟨region, held⟩ := isOpen.region
  simp only [insert, Program.insert_eq held]
  rfl

/-- An operation with one result, which is the next value. -/
theorem insertValue_eq (isOpen : b.Open n) (kind : OpKind) (operands : List ValueId) (ty : Ty) :
    insertValue kind operands ty b = .ok n (b.put [⟨kind, operands, [(n, ty)]⟩]) := by
  have inserted : insert kind operands [ty] b = .ok b.program.ops.size _ :=
    insert_eq isOpen ⟨kind, operands, [(n, ty)]⟩
  unfold insertValue
  rw [get_bind, bind_of_ok inserted, isOpen.next]
  rfl

theorem typeOf_eq {v : ValueId} {ty : Ty} (typed : b.program.typeOf v = .ok ty) :
    typeOf v b = .ok ty b := by
  simp only [typeOf, typed]

/-- Steps of building in a row. -/
theorem bind_put {α β : Type} {steps : Build α} {next : α → Build β} {a : α} {c : β}
    {first second : List Stmt} (run : steps b = .ok a (b.put first))
    (more : next a (b.put first) = .ok c ((b.put first).put second)) :
    (steps >>= next) b = .ok c (b.put (first ++ second)) := by
  rw [bind_of_ok run, more, Builder.put_put]

theorem load_eq (isOpen : b.Open n) {cell : ValueId} {wide : IntTy}
    (typed : b.program.typeOf cell = .ok (.memref wide)) :
    load cell b = .ok n (b.put [⟨.load, [cell], [(n, .int wide)]⟩]) := by
  unfold load
  rw [bind_of_ok (typeOf_eq typed)]
  exact insertValue_eq isOpen .load [cell] (.int wide)

theorem addi_eq (isOpen : b.Open n) {lhs : ValueId} {ty : Ty}
    (typed : b.program.typeOf lhs = .ok ty) (rhs : ValueId) :
    addi lhs rhs b = .ok n (b.put [⟨.addi, [lhs, rhs], [(n, ty)]⟩]) := by
  unfold addi
  rw [bind_of_ok (typeOf_eq typed)]
  exact insertValue_eq isOpen .addi [lhs, rhs] ty

theorem shrui_eq (isOpen : b.Open n) {value : ValueId} {ty : Ty}
    (typed : b.program.typeOf value = .ok ty) (amount : ValueId) :
    shrui value amount b = .ok n (b.put [⟨.shrui, [value, amount], [(n, ty)]⟩]) := by
  unfold shrui
  rw [bind_of_ok (typeOf_eq typed)]
  exact insertValue_eq isOpen .shrui [value, amount] ty

end Build

namespace StateUpdate

variable {b : Builder} {n : ValueId}

theorem emitDelta_eq (isOpen : b.Open n) (wide : IntTy) (parts : Parts) :
    emitDelta wide parts b =
      .ok (deltaValue wide parts n) (b.put (deltaStmts wide parts n)) := by
  unfold emitDelta deltaValue deltaStmts
  split
  · rw [Builder.put_nil]
    rfl
  · split
    · exact Build.insertValue_eq isOpen .extsi [parts.delta] (.int wide)
    · exact Build.insertValue_eq isOpen .extui [parts.delta] (.int wide)

theorem emitWord_eq (isOpen : b.Open n) {wide : IntTy} {old : ValueId}
    (typed : b.program.typeOf old = .ok (.int wide)) (word : IntTy) (index : Nat) :
    emitWord wide word old index b = .ok (n + 2) (b.put
      [⟨.constant (truncate wide.bits (index * word.bits)), [], [(n, .int wide)]⟩,
        ⟨.shrui, [old, n], [(n + 1, .int wide)]⟩, ⟨.trunci, [n + 1], [(n + 2, .int word)]⟩]) := by
  unfold emitWord
  refine Build.bind_put (Build.insertValue_eq isOpen _ [] (.int wide)) ?_
  have open₁ := isOpen.put
    [⟨.constant (truncate wide.bits (index * word.bits)), [], [(n, .int wide)]⟩]
  refine Build.bind_put (Build.shrui_eq open₁ (Builder.typeOf_put typed) n) ?_
  exact Build.insertValue_eq (open₁.put _) .trunci [n + 1] (.int word)

theorem emitWords_eq (isOpen : b.Open n) {wide : IntTy} {old : ValueId}
    (typed : b.program.typeOf old = .ok (.int wide)) (word : IntTy) (indices : List Nat) :
    indices.mapM (emitWord wide word old) b =
      .ok (wordValues indices n) (b.put (wordStmts wide word old indices n)) := by
  induction indices generalizing b n with
  | nil =>
    rw [wordStmts, Builder.put_nil]
    rfl
  | cons index rest ih =>
    rw [List.mapM_cons, wordStmts]
    refine Build.bind_put (emitWord_eq isOpen typed word index) ?_
    rw [bind_of_ok (ih (isOpen.put _) (Builder.typeOf_put typed))]
    rfl

/-- What is emitted for a state update is its block. -/
theorem emit_eq (isOpen : b.Open n) {counter : Counter} {wide : IntTy}
    (cellTy : counter.ty = .memref wide) (parts : Parts) :
    emit counter parts b =
      .ok (blockResult wide parts n) (b.put (block counter.sym wide parts n)) := by
  have elem : counter.elem = wide := by rw [Counter.elem, cellTy, Ty.elem]
  have shape : block counter.sym wide parts n =
      [⟨.getGlobal counter.sym, [], [(n, .memref wide)]⟩] ++ ([⟨.load, [n], [(n + 1, .int wide)]⟩] ++
      (deltaStmts wide parts (n + 2) ++
      ([⟨.addi, [n + 1, deltaValue wide parts (n + 2)], [(sumValue wide parts n, .int wide)]⟩] ++
      ([⟨.store, [sumValue wide parts n, n], []⟩] ++
      (wordStmts wide parts.word (n + 1) parts.indices (sumValue wide parts n + 1) ++
      ([⟨.fromElements, wordValues parts.indices (sumValue wide parts n + 1),
        [(packedValue wide parts n, .tensor parts.shape parts.word)]⟩] ++
      [⟨.cast, [packedValue wide parts n], [(blockResult wide parts n, parts.resultTy)]⟩])))))) := rfl
  have open₁ := isOpen.put [⟨.getGlobal counter.sym, [], [(n, .memref wide)]⟩]
  have cellTyped := Builder.typeOf_put_next isOpen (.getGlobal counter.sym) [] (.memref wide)
  have open₂ := open₁.put [⟨.load, [n], [(n + 1, .int wide)]⟩]
  have oldTyped := Builder.typeOf_put_next open₁ .load [n] (.int wide)
  have open₃ := open₂.put (deltaStmts wide parts (n + 2))
  rw [(defs_deltaStmts wide parts (n + 2)).2] at open₃
  have open₄ := open₃.put
    [⟨.addi, [n + 1, deltaValue wide parts (n + 2)], [(sumValue wide parts n, .int wide)]⟩]
  have open₅ := open₄.put [⟨.store, [sumValue wide parts n, n], []⟩]
  have open₆ := open₅.put
    (wordStmts wide parts.word (n + 1) parts.indices (sumValue wide parts n + 1))
  rw [(numbered_wordStmts wide parts.word (n + 1) parts.indices _).2, Parts.length_indices] at open₆
  unfold emit
  rw [elem, cellTy, ← Parts.indices, shape]
  refine Build.bind_put (Build.insertValue_eq isOpen (.getGlobal counter.sym) [] (.memref wide)) ?_
  refine Build.bind_put (Build.load_eq open₁ cellTyped) ?_
  refine Build.bind_put (emitDelta_eq open₂ wide parts) ?_
  refine Build.bind_put (Build.addi_eq open₃ (Builder.typeOf_put oldTyped) _) ?_
  refine Build.bind_put (Build.insert_eq open₄ ⟨.store, [sumValue wide parts n, n], []⟩) ?_
  refine Build.bind_put (emitWords_eq open₅ ?_ parts.word parts.indices) ?_
  · exact Builder.typeOf_put (Builder.typeOf_put (Builder.typeOf_put oldTyped))
  refine Build.bind_put (Build.insertValue_eq open₆ .fromElements _ _) ?_
  exact Build.insertValue_eq (open₆.put _) .cast [packedValue wide parts n] parts.resultTy

end StateUpdate

end RngLowering
