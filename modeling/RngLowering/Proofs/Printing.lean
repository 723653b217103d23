import Mathlib.Data.List.Induction
import RngLowering.Proofs.Legible
import RngLowering.Proofs.Placement

set_option autoImplicit false

namespace RngLowering

namespace Printer

/-- The numbers that values have once these are defined, in this order. -/
def numbering (values : List ValueId) : Names := values.zipIdx.reverse

theorem numbering_concat (values : List ValueId) (v : ValueId) :
    numbering (values ++ [v]) = (v, values.length) :: numbering values := by
  simp [numbering, List.zipIdx_append]

@[simp] theorem length_numbering (values : List ValueId) :
    (numbering values).length = values.length := by
  simp [numbering]

theorem lookup_numbering {values : List ValueId} (nodup : values.Nodup) {v : ValueId}
    (defined : v ∈ values) : (numbering values).lookup v = some (values.idxOf v) := by
  induction values using List.reverseRecOn with
  | nil => cases defined
  | append_singleton front last ih =>
    rw [List.nodup_append] at nodup
    rw [numbering_concat]
    by_cases same : v = last
    · subst same
      have fresh : v ∉ front := fun inside => nodup.2.2 v inside v (by simp) rfl
      rw [List.lookup_cons_self, List.idxOf_append_of_notMem fresh, List.idxOf_cons_self,
        Nat.add_zero]
    · have inside : v ∈ front := by simpa [same] using defined
      rw [List.lookup_cons, beq_false_of_ne same, List.idxOf_append_of_mem inside]
      exact ih nodup.1 inside

theorem lookup_numbering_of_not_mem {values : List ValueId} {v : ValueId}
    (fresh : v ∉ values) : (numbering values).lookup v = none := by
  induction values using List.reverseRecOn with
  | nil => rfl
  | append_singleton front last ih =>
    simp only [List.mem_append, List.mem_singleton, not_or] at fresh
    rw [numbering_concat, List.lookup_cons, beq_false_of_ne fresh.2]
    exact ih fresh.1

theorem defineAll_numbering {front values : List ValueId} (nodup : (front ++ values).Nodup) :
    defineAll (numbering front) values = numbering (front ++ values) := by
  induction values generalizing front with
  | nil => simp [defineAll]
  | cons v rest ih =>
    rw [List.append_cons] at nodup ⊢
    have fresh : v ∉ front := by
      have disjoint := (List.nodup_append.mp (List.nodup_append.mp nodup).1).2.2
      exact fun inside => disjoint v inside v (by simp) rfl
    change defineAll (define (numbering front) v) rest = _
    rw [define, lookup_numbering_of_not_mem fresh, ← ih nodup, numbering_concat]
    simp

/-- A value that is defined so far has its place among all values as its number. -/
theorem valueToken_numbering {front all : List ValueId} (within : front <+: all)
    (nodup : all.Nodup) {v : ValueId} (defined : v ∈ front) :
    valueToken (numbering front) v = numberToken (all.idxOf v) := by
  obtain ⟨more, rfl⟩ := within
  rw [List.nodup_append] at nodup
  rw [valueToken, lookup_numbering nodup.1 defined, List.idxOf_append_of_mem defined]
  rfl

theorem map_valueToken_numbering {front all : List ValueId} (within : front <+: all)
    (nodup : all.Nodup) {values : List ValueId} (defined : ∀ v ∈ values, v ∈ front) :
    values.map (valueToken (numbering front)) = (values.map all.idxOf).map numberToken := by
  rw [List.map_map]
  exact List.map_congr_left fun v mem => valueToken_numbering within nodup (defined v mem)

theorem typeToken_eq {p : Program} {v : ValueId} {ty : Ty} (typed : p.typeOf v = .ok ty) :
    typeToken p v = ty.token := by
  obtain ⟨origin, found⟩ := Program.typeOf_eq_ok.mp typed
  rw [typeToken, found]
  rfl

theorem map_typeToken {p : Program} {typed : List (ValueId × Ty)} (types : p.Types typed) :
    (typed.map Prod.fst).map (typeToken p) = (typed.map Prod.snd).map Ty.token := by
  rw [List.map_map, List.map_map]
  exact List.map_congr_left fun (v, ty) mem => typeToken_eq (types v ty mem)

theorem typeTokens_eq {p : Program} {parent : Option OpId} {id : OpId} {s : Stmt}
    (holds : p.HoldsStmt parent id s) (loc : Option Loc) :
    typeTokens p (s.toOp parent loc) = s.writtenTypes.map Ty.token := by
  have results : s.defs.map (typeToken p) = s.types.map Ty.token := map_typeToken holds.types
  unfold typeTokens Stmt.writtenTypes
  cases kind : s.kind with
  | global cell => simp [Stmt.toOp, kind, Ty.token]
  | _ => simp [Stmt.toOp, kind, results]

theorem resultPieces_eq {front all : List ValueId} (nodup : all.Nodup) {s : Stmt}
    (within : front ++ s.defs <+: all) :
    resultPieces (numbering (front ++ s.defs)) s.defs = (s.rename all.idxOf).resultPieces := by
  have results : s.defs.map (valueToken (numbering (front ++ s.defs))) =
      (s.defs.map all.idxOf).map numberToken :=
    map_valueToken_numbering within nodup fun v mem => List.mem_append_right _ mem
  unfold Stmt.resultPieces
  rw [Stmt.defs_rename, ← results]
  cases s.defs with
  | nil => rfl
  | cons v rest => rfl

theorem opPieces_eq {p : Program} {parent : Option OpId} {id : OpId} {s : Stmt}
    (holds : p.HoldsStmt parent id s) {front all : List ValueId} (nodup : all.Nodup)
    (within : front ++ s.defs <+: all) (closed : s.Scoped front) (loc : Option Loc) :
    opPieces p (numbering front) (s.toOp parent loc) = (s.rename all.idxOf).pieces := by
  have operands : (s.rename all.idxOf).operands.map numberToken =
      s.operands.map (valueToken (numbering (front ++ s.defs))) :=
    (map_valueToken_numbering within nodup
      fun v used => List.mem_append_left _ (closed v used)).symm
  have types : (s.rename all.idxOf).writtenTypes = s.writtenTypes := by
    simp only [Stmt.writtenTypes, Stmt.types_rename]
    rfl
  have name : namePiece (s.toOp parent loc) = (s.rename all.idxOf).namePiece := by
    simp [namePiece, Stmt.namePiece, Stmt.toOp, Op.name, Stmt.rename, Stmt.defs]
  unfold opPieces Stmt.pieces
  rw [operands, types, typeTokens_eq holds, name]
  change resultPieces (defineAll (numbering front) s.defs) s.defs ++ _ :: symbolPieces s.kind ++
    commaList .spaced (s.operands.map (valueToken (defineAll (numbering front) s.defs))) ++
    attrPieces s.kind.attrs ++ _ = _
  rw [defineAll_numbering (nodup.sublist within.sublist), resultPieces_eq nodup within]
  rfl

/-- A parameter is written as its new number and its type. -/
theorem arg_eq {p : Program} {front all : List ValueId} (nodup : all.Nodup) (within : front <+: all)
    {v : ValueId} {ty : Ty} (defined : v ∈ front) (typed : p.typeOf v = .ok ty)
    (first : Token → Piece) :
    argPieces.arg p (numbering front) first v = paramPieces.param first (all.idxOf v, ty) := by
  simp only [argPieces.arg, paramPieces.param, typeToken_eq typed,
    valueToken_numbering within nodup defined]

theorem argPieces_eq {p : Program} {front all : List ValueId} (nodup : all.Nodup)
    (within : front <+: all) {params : List (ValueId × Ty)}
    (defined : ∀ v ∈ params.map Prod.fst, v ∈ front) (types : p.Types params) :
    argPieces p (numbering front) (params.map Prod.fst) =
      paramPieces (params.map fun (v, ty) => (all.idxOf v, ty)) := by
  have each : ∀ param ∈ params, ∀ first,
      argPieces.arg p (numbering front) first param.1 =
        paramPieces.param first (all.idxOf param.1, param.2) :=
    fun param mem first => arg_eq nodup within (defined param.1 (List.mem_map_of_mem mem))
      (types param.1 param.2 mem) first
  cases params with
  | nil => rfl
  | cons head rest =>
    simp only [List.map_cons, argPieces, paramPieces, List.flatMap_map]
    rw [each head (by simp)]
    congr 1
    refine List.flatMap_congr fun param mem => ?_
    rw [each param (by simp [mem])]

theorem funcPieces_eq {p : Program} {sym : String} {params : List (ValueId × Ty)}
    (types : p.Types params) {front all : List ValueId} (nodup : all.Nodup)
    (within : front ++ params.map Prod.fst <+: all) (region : List OpId) (loc : Option Loc) :
    funcPieces p (numbering front) (funcOp sym params region loc) sym =
      headPieces sym (params.map fun (v, ty) => (all.idxOf v, ty)) := by
  unfold funcPieces headPieces
  rw [← argPieces_eq nodup within (fun v mem => List.mem_append_right _ mem) types,
    ← defineAll_numbering (nodup.sublist within.sublist)]
  rfl

/-- The lines of statements in a region. -/
theorem siblingLines_stmts {p : Program} {parent : Option OpId} {region : List OpId}
    {body : List Stmt} (holds : List.Forall₂ (p.HoldsStmt parent) region body)
    {front scope all : List ValueId} (nodup : all.Nodup)
    (within : front ++ body.flatMap Stmt.defs <+: all) (closed : Stmt.AllScoped scope body)
    (known : ∀ v ∈ scope, v ∈ front) (nested : Names → List OpId → List Line × Names) (depth : Nat) :
    siblingLines p nested depth (numbering front) region =
      (body.map fun s => ⟨depth, (s.rename all.idxOf).pieces⟩,
        numbering (front ++ body.flatMap Stmt.defs)) := by
  induction holds generalizing front scope with
  | nil => simp [siblingLines]
  | @cons id s _ rest head _ ih =>
    obtain ⟨loc, found⟩ := head.op
    rw [List.flatMap_cons, ← List.append_assoc] at within ⊢
    have withinHead : front ++ s.defs <+: all := (List.prefix_append _ _).trans within
    have later := ih within closed.2 (by
      intro v mem
      rcases Stmt.mem_scopeAfter.mp mem with now | before
      · exact List.mem_append_right _ now
      · exact List.mem_append_left _ (known v before))
    have line : opLines p nested depth (numbering front) (s.toOp parent loc) =
        ([⟨depth, (s.rename all.idxOf).pieces⟩], numbering (front ++ s.defs)) := by
      have plain := head.plain
      rw [← opPieces_eq head nodup withinHead (fun v used => known v (closed.1 v used)) loc,
        ← defineAll_numbering (nodup.sublist withinHead.sublist)]
      unfold opLines
      cases kind : s.kind with
      | func sym => simp [kind, OpKind.isFunc] at plain
      | _ => simp [Stmt.toOp, kind]
    simp only [siblingLines, found, line, later, List.map_cons, List.singleton_append]

/-- The lines of a function's region. An empty one needs no level. -/
theorem regionLines_stmts {p : Program} {parent : Option OpId} {region : List OpId}
    {body : List Stmt} (holds : List.Forall₂ (p.HoldsStmt parent) region body)
    {front scope all : List ValueId} (nodup : all.Nodup)
    (within : front ++ body.flatMap Stmt.defs <+: all) (closed : Stmt.AllScoped scope body)
    (known : ∀ v ∈ scope, v ∈ front) {levels : Nat} (enough : body = [] ∨ 0 < levels) (depth : Nat) :
    regionLines p levels depth (numbering front) region =
      (body.map fun s => ⟨depth, (s.rename all.idxOf).pieces⟩,
        numbering (front ++ body.flatMap Stmt.defs)) := by
  cases levels with
  | zero =>
    rcases enough with rfl | positive
    · simp [regionLines]
    · cases positive
  | succ levels => exact siblingLines_stmts holds nodup within closed known _ depth

theorem opLines_item {p : Program} {id : OpId} {item : Item} (holds : p.HoldsItem id item)
    {front scope all : List ValueId} (nodup : all.Nodup) (within : front ++ item.defs <+: all)
    (closed : item.Scoped scope) (known : ∀ v ∈ scope, v ∈ front) {levels : Nat}
    (enough : ∀ sym params body, item = .func sym params body → body = [] ∨ 0 < levels) :
    ∃ op, p.op? id = some op ∧
      opLines p (regionLines p levels 2) 1 (numbering front) op =
        ((item.rename all.idxOf).lines, numbering (front ++ item.defs)) := by
  cases item with
  | op s =>
    have lines := siblingLines_stmts (.cons holds .nil) nodup (by simpa [Item.defs] using within)
      ⟨closed, trivial⟩ known (regionLines p levels 2) 1
    obtain ⟨loc, found⟩ := holds.op
    refine ⟨_, found, ?_⟩
    simpa [siblingLines, found, Item.rename, Item.lines, Item.defs, Prod.ext_iff] using lines
  | func sym params body =>
    obtain ⟨region, func⟩ := holds
    obtain ⟨loc, found⟩ := func.op
    have within' : front ++ params.map Prod.fst ++ body.flatMap Stmt.defs <+: all := by
      simpa [Item.defs] using within
    have withinHead : front ++ params.map Prod.fst <+: all :=
      (List.prefix_append _ _).trans within'
    have inner := regionLines_stmts func.body nodup within' closed
      (fun v mem => List.mem_append_right _ (List.mem_reverse.mp mem)) (enough sym params body rfl) 2
    refine ⟨_, found, ?_⟩
    rw [← defineAll_numbering (nodup.sublist withinHead.sublist)] at inner
    simp only [opLines, funcOp] at inner ⊢
    rw [inner, ← funcOp, funcPieces_eq func.types nodup withinHead]
    simp [Item.rename, Item.lines, Item.defs, closingLine, Function.comp_def]

theorem siblingLines_items {p : Program} {ids : List OpId} {o : Outline}
    (holds : List.Forall₂ p.HoldsItem ids o) {front scope all : List ValueId} (nodup : all.Nodup)
    (within : front ++ o.defs <+: all) (closed : o.Scoped scope) (known : ∀ v ∈ scope, v ∈ front)
    {levels : Nat}
    (enough : ∀ sym params body, Item.func sym params body ∈ o → body = [] ∨ 0 < levels) :
    (siblingLines p (regionLines p levels 2) 1 (numbering front) ids).1 =
      (o.rename all.idxOf).flatMap Item.lines := by
  induction holds generalizing front scope with
  | nil => simp [siblingLines, Outline.rename]
  | @cons id item _ rest head _ ih =>
    rw [Outline.defs_cons, ← List.append_assoc] at within
    obtain ⟨op, found, line⟩ := opLines_item head nodup ((List.prefix_append _ _).trans within)
      closed.1 known fun sym params body same => enough sym params body (by simp [same])
    have later := ih within closed.2 (by
        intro v mem
        rcases Item.mem_defs_of_mem_scopeAfter mem with now | before
        · exact List.mem_append_right _ now
        · exact List.mem_append_left _ (known v before))
      fun sym params body mem => enough sym params body (by simp [mem])
    simp only [siblingLines, found, line, later, Outline.rename, List.map_cons, List.flatMap_cons]

end Printer

namespace Program

/-- A function with statements leaves room for a level inside it. -/
theorem Represents.one_lt_size {p : Program} {o : Outline} (rep : p.Represents o) {sym : String}
    {params : List (ValueId × Ty)} {body : List Stmt} (mem : Item.func sym params body ∈ o)
    (nonempty : body ≠ []) : 1 < p.ops.size := by
  obtain ⟨id, -, region, func⟩ := forall₂_exists_of_mem rep.items.flip mem
  obtain ⟨loc, found⟩ := func.op
  cases body with
  | nil => exact absurd rfl nonempty
  | cons s rest =>
    obtain ⟨inner, -, holds⟩ := forall₂_exists_of_mem func.body.flip (List.mem_cons_self)
    obtain ⟨innerLoc, innerFound⟩ := holds.op
    have apart : id ≠ inner := by
      rintro rfl
      rw [found] at innerFound
      have kind : OpKind.func sym = s.kind := congrArg Op.kind (Option.some.inj innerFound)
      have plain := holds.plain
      rw [← kind] at plain
      cases plain
    have outside := op?_lt found
    have inside := op?_lt innerFound
    exact Nat.lt_of_not_le fun small => apart (by
      rw [Nat.lt_one_iff.mp (Nat.lt_of_lt_of_le outside small),
        Nat.lt_one_iff.mp (Nat.lt_of_lt_of_le inside small)])

/-- A program prints as its outline, with the values numbered in the order of their definitions. -/
theorem lines_eq {p : Program} {o : Outline} (rep : p.Represents o) (nodup : o.defs.Nodup)
    (closed : o.Scoped []) : p.lines = (o.rename o.defs.idxOf).lines p.name := by
  have body : (Printer.regionLines p p.ops.size 1 [] p.body).1 =
      (o.rename o.defs.idxOf).flatMap Item.lines := by
    cases size : p.ops.size with
    | zero =>
      have empty : p.body = [] := by
        refine List.eq_nil_iff_forall_not_mem.mpr fun id mem => ?_
        have inside := lt_of_mem_body rep mem
        rw [size] at inside
        exact Nat.not_lt_zero id inside
      have none := rep.items
      rw [empty, List.forall₂_nil_left_iff] at none
      simp [Printer.regionLines, none, Outline.rename]
    | succ levels =>
      have within : [] ++ o.defs <+: o.defs := List.prefix_rfl
      refine Printer.siblingLines_items rep.items nodup within closed (by simp) ?_
      intro sym params stmts mem
      by_cases empty : stmts = []
      · exact Or.inl empty
      · have room := rep.one_lt_size mem empty
        rw [size] at room
        exact Or.inr (Nat.lt_of_succ_lt_succ room)
  simp only [lines, Outline.lines, body, closingLine]

end Program

end RngLowering
