import RngLowering.Proofs.Meaning

set_option autoImplicit false

namespace RngLowering

/-- The statement with other names for the values it uses and for those it defines. -/
def Stmt.mapValues (use define : ValueId → ValueId) (s : Stmt) : Stmt :=
  { s with operands := s.operands.map use, results := s.results.map fun (v, ty) => (define v, ty) }

section

variable {use define : ValueId → ValueId} {s : Stmt}

@[simp] theorem Stmt.kind_mapValues : (s.mapValues use define).kind = s.kind := rfl

@[simp] theorem Stmt.defs_mapValues : (s.mapValues use define).defs = s.defs.map define := by
  simp [Stmt.defs, Stmt.mapValues, Function.comp_def]

@[simp] theorem Stmt.types_mapValues : (s.mapValues use define).types = s.types := by
  simp [Stmt.types, Stmt.mapValues, Function.comp_def]

end

/-- Statements of one kind with the same types and the same values of operands act alike. -/
structure Stmt.Alike (s t : Stmt) (env other : Env) : Prop where
  kind : t.kind = s.kind
  types : t.types = s.types
  operands : t.operands.map (other.lookup ·) = s.operands.map (env.lookup ·)

namespace Stmt.Alike

variable {s t : Stmt} {env other : Env}

theorem operand? (alike : s.Alike t env other) (index : Nat) :
    t.operand? other index = s.operand? env index := by
  have joined : ∀ (operands : List ValueId) (env : Env),
      operands[index]?.bind (env.lookup ·) = ((operands.map (env.lookup ·))[index]?).join := by
    intro operands env
    rw [List.getElem?_map]
    cases operands[index]? <;> rfl
  unfold Stmt.operand?
  rw [joined, joined, alike.operands]

theorem int? (alike : s.Alike t env other) (index : Nat) : t.int? other index = s.int? env index := by
  unfold Stmt.int?
  rw [alike.operand? index]

theorem cell? (alike : s.Alike t env other) (index : Nat) :
    t.cell? other index = s.cell? env index := by
  unfold Stmt.cell?
  rw [alike.operand? index]

theorem intResult? (alike : s.Alike t env other) (bits : Nat) :
    t.intResult? bits = s.intResult? bits := by
  unfold Stmt.intResult?
  rw [alike.types]

theorem length_operands (alike : s.Alike t env other) :
    t.operands.length = s.operands.length := by
  simpa using congrArg List.length alike.operands

theorem compute? (alike : s.Alike t env other) : t.compute? other = s.compute? env := by
  unfold Stmt.compute?
  simp only [alike.kind, alike.types, alike.int?, alike.operand?, alike.intResult?,
    alike.length_operands]

theorem update? (alike : s.Alike t env other) (counterBits : Nat) :
    t.update? counterBits other = s.update? counterBits env := by
  unfold Stmt.update?
  simp only [alike.types, alike.int?]

theorem act? (alike : s.Alike t env other) (config : Config) (cells : Table Cell) :
    t.act? config other cells = s.act? config env cells := by
  unfold Stmt.act?
  simp only [alike.kind, alike.int?, alike.cell?, alike.compute?, alike.update?]

end Stmt.Alike

theorem mapM_lookup (env : Env) (operands : List ValueId) :
    operands.mapM (env.lookup ·) = (operands.map (env.lookup ·)).mapM id := by
  induction operands with
  | nil => rfl
  | cons v rest ih => simp only [List.mapM_cons, List.map_cons, ih, id]

/-- Two environments bind the values of a list alike, where the second has other names for them. -/
def EnvRel (use : ValueId → ValueId) (values : List ValueId) (env other : Env) : Prop :=
  ∀ v ∈ values, other.lookup (use v) = env.lookup v

/-- No value is used under the name of another one that is defined. -/
def Apart (use define : ValueId → ValueId) (values defs : List ValueId) : Prop :=
  ∀ v ∈ values, ∀ w ∈ defs, use v = define w ↔ v = w

theorem lookup_bindAll {use define : ValueId → ValueId} {v : ValueId} {defs : List ValueId}
    (apart : ∀ w ∈ defs, use v = define w ↔ v = w) {env other : Env}
    (same : other.lookup (use v) = env.lookup v) (bound : List Value) :
    (bindAll (defs.map define) bound other).lookup (use v) = (bindAll defs bound env).lookup v := by
  induction defs generalizing bound env other with
  | nil => exact same
  | cons w rest ih =>
    cases bound with
    | nil => exact same
    | cons value more =>
      rw [List.map_cons, bindAll_cons, bindAll_cons]
      apply ih fun u mem => apart u (by simp [mem])
      rw [List.lookup_cons, List.lookup_cons, same]
      by_cases isHead : v = w
      · rw [(apart w (by simp)).mpr isHead, isHead, beq_self_eq_true, beq_self_eq_true]
      · rw [beq_false_of_ne isHead,
          beq_false_of_ne fun equal => isHead ((apart w (by simp)).mp equal)]

theorem EnvRel.bind {use define : ValueId → ValueId} {values defs : List ValueId}
    (apart : Apart use define values defs) {env other : Env} (rel : EnvRel use values env other)
    (bound : List Value) :
    EnvRel use values (bindAll defs bound env) (bindAll (defs.map define) bound other) :=
  fun v mem => lookup_bindAll (apart v mem) (rel v mem) bound

theorem EnvRel.operands {use : ValueId → ValueId} {values : List ValueId} {env other : Env}
    (rel : EnvRel use values env other) {operands : List ValueId}
    (known : ∀ v ∈ operands, v ∈ values) :
    (operands.map use).map (other.lookup ·) = operands.map (env.lookup ·) := by
  rw [List.map_map]
  exact List.map_congr_left fun v mem => rel v (known v mem)

theorem EnvRel.alike {use define : ValueId → ValueId} {values : List ValueId} {env other : Env}
    (rel : EnvRel use values env other) {s : Stmt} (known : ∀ v ∈ s.operands, v ∈ values) :
    s.Alike (s.mapValues use define) env other :=
  ⟨rfl, Stmt.types_mapValues, rel.operands known⟩

/-- Statements under other names compute the same, and so does what comes after them if it does so
wherever they may lead. -/
theorem exec_mapValues_append {config : Config} {use define : ValueId → ValueId}
    {values : List ValueId} {body : List Stmt} (reachable : Env → Table Cell → Prop)
    (known : ∀ s ∈ body, ∀ v ∈ s.operands, v ∈ values)
    (apart : ∀ s ∈ body, Apart use define values s.defs)
    (keeps : ∀ s ∈ body, ∀ env cells bound after, reachable env cells →
      s.act? config env cells = some (bound, after) → reachable (bindAll s.defs bound env) after)
    {back newBack : List Stmt}
    (next : ∀ env other cells, EnvRel use values env other → reachable env cells →
      exec config other newBack cells = exec config env back cells)
    {env other : Env} (rel : EnvRel use values env other) {cells : Table Cell}
    (start : reachable env cells) :
    exec config other (body.map (Stmt.mapValues use define) ++ newBack) cells =
      exec config env (body ++ back) cells := by
  induction body generalizing env other cells with
  | nil => exact next env other cells rel start
  | cons s rest ih =>
    have alike : s.Alike (s.mapValues use define) env other := rel.alike (known s (by simp))
    simp only [List.map_cons, List.cons_append, exec, Stmt.kind_mapValues, alike.act? config cells]
    split
    · rw [mapM_lookup, mapM_lookup, alike.operands]
    · cases acted : s.act? config env cells with
      | none => rfl
      | some pair =>
        obtain ⟨bound, after⟩ := pair
        dsimp only
        rw [Stmt.defs_mapValues]
        exact ih (fun t mem => known t (by simp [mem])) (fun t mem => apart t (by simp [mem]))
          (fun t mem => keeps t (by simp [mem])) (rel.bind (apart s (by simp)) bound)
          (keeps s (by simp) env cells bound after start acted)

theorem exec_mapValues {use define : ValueId → ValueId} {values : List ValueId} {body : List Stmt}
    (known : ∀ s ∈ body, ∀ v ∈ s.operands, v ∈ values)
    (apart : ∀ s ∈ body, Apart use define values s.defs) {env other : Env}
    (rel : EnvRel use values env other) (config : Config) (cells : Table Cell) :
    exec config other (body.map (Stmt.mapValues use define)) cells = exec config env body cells := by
  have run : exec config other (body.map (Stmt.mapValues use define) ++ []) cells =
      exec config env (body ++ []) cells :=
    exec_mapValues_append (fun _ _ => True) known apart (fun _ _ _ _ _ _ _ _ => trivial)
      (fun _ _ _ _ _ => rfl) rel trivial
  rwa [List.append_nil, List.append_nil] at run

@[simp] theorem Item.kind_rename (f : ValueId → ValueId) (item : Item) :
    (item.rename f).kind = item.kind := by
  cases item <;> rfl

namespace Outline

variable {f : ValueId → ValueId} {o : Outline}

theorem function?_rename (f : ValueId → ValueId) (o : Outline) (name : String) :
    (o.rename f).function? name =
      (o.function? name).map fun (params, body) =>
        (params.map fun (v, ty) => (f v, ty), body.map (Stmt.rename f)) := by
  unfold function? Outline.rename
  have test : (fun item : Item => item.kind.defines name) ∘ Item.rename f =
      fun item => item.kind.defines name := by
    funext item
    simp
  rw [List.find?_map, test]
  cases o.find? fun item => item.kind.defines name with
  | none => rfl
  | some item => cases item <;> rfl

theorem cells_rename (f : ValueId → ValueId) (o : Outline) : (o.rename f).cells = o.cells := by
  simp [cells, Outline.rename, List.filterMap_map]

/-- A function of an outline, with what is known of it. -/
theorem mem_of_function? {name : String} {params : List (ValueId × Ty)} {body : List Stmt}
    (found : o.function? name = some (params, body)) : ∃ sym, Item.func sym params body ∈ o := by
  unfold function? at found
  split at found
  · rename_i sym inParams inBody isFirst
    cases found
    exact ⟨sym, List.mem_of_find?_eq_some isFirst⟩
  · cases found

theorem mem_stmts_of_function? {name : String} {params : List (ValueId × Ty)} {body : List Stmt}
    (found : o.function? name = some (params, body)) {s : Stmt} (mem : s ∈ body) : s ∈ o.stmts := by
  obtain ⟨sym, inside⟩ := mem_of_function? found
  exact List.mem_flatMap.mpr ⟨_, inside, mem⟩

theorem mem_defs_of_function? {name : String} {params : List (ValueId × Ty)} {body : List Stmt}
    (found : o.function? name = some (params, body)) {v : ValueId}
    (mem : v ∈ params.map Prod.fst ++ body.flatMap Stmt.defs) : v ∈ o.defs := by
  obtain ⟨sym, inside⟩ := mem_of_function? found
  exact List.mem_flatMap.mpr ⟨_, inside, mem⟩

/-- A function uses nothing that its outline does not define. -/
theorem known_of_function? (closed : o.Scoped []) {name : String} {params : List (ValueId × Ty)}
    {body : List Stmt} (found : o.function? name = some (params, body)) :
    ∀ s ∈ body, ∀ v ∈ s.operands, v ∈ o.defs := by
  intro s inBody v used
  rcases mem_defs_of_scoped closed (mem_stmts_of_function? found inBody) used with inside | absurd
  · exact inside
  · cases absurd

theorem callInts_rename (closed : o.Scoped [])
    (injective : ∀ v ∈ o.defs, ∀ w ∈ o.defs, f v = f w → v = w) (config : Config) (name : String)
    (args : List Nat) (cells : Table Cell) :
    (o.rename f).callInts config name args cells = o.callInts config name args cells := by
  unfold callInts
  rw [function?_rename]
  cases found : o.function? name with
  | none => rfl
  | some pair =>
    obtain ⟨params, body⟩ := pair
    have apart : ∀ defs : List ValueId, (∀ w ∈ defs, w ∈ o.defs) → Apart f f o.defs defs :=
      fun defs inside v inDefs w inList =>
        ⟨injective v inDefs w (inside w inList), fun same => by rw [same]⟩
    simp only [Option.map_some, List.map_map, Function.comp_def]
    cases argValues? (params.map Prod.snd) args with
    | none => rfl
    | some values =>
      have empty : EnvRel f o.defs [] [] := fun v _ => rfl
      have start := empty.bind (apart (params.map Prod.fst)
        fun w inside => mem_defs_of_function? found (List.mem_append_left _ inside)) values
      have run := exec_mapValues (known_of_function? closed found) (fun s inBody => apart s.defs
        fun w inside => mem_defs_of_mem_stmts (mem_stmts_of_function? found inBody) inside) start
        config cells
      rw [List.map_map] at run
      exact run

/-- An outline under other names answers calls alike. -/
theorem session_rename (closed : o.Scoped [])
    (injective : ∀ v ∈ o.defs, ∀ w ∈ o.defs, f v = f w → v = w) (config : Config)
    (cells : Table Cell) (calls : List (String × List Nat)) :
    (o.rename f).session config cells calls = o.session config cells calls := by
  induction calls generalizing cells with
  | nil => rfl
  | cons head rest ih =>
    simp only [session, callInts_rename closed injective, ih]

end Outline

end RngLowering
