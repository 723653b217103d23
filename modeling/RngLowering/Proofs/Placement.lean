import Mathlib.Data.List.Forall2
import RngLowering.Proofs.Arena
import RngLowering.Proofs.Outline

set_option autoImplicit false

namespace RngLowering

def Stmt.toOp (s : Stmt) (parent : Option OpId) (loc : Option Loc) : Op :=
  { kind := s.kind, operands := s.operands, results := s.defs, parent, loc }

@[simp] theorem Stmt.kind_toOp (s : Stmt) (parent : Option OpId) (loc : Option Loc) :
    (s.toOp parent loc).kind = s.kind := rfl

@[simp] theorem Stmt.operands_toOp (s : Stmt) (parent : Option OpId) (loc : Option Loc) :
    (s.toOp parent loc).operands = s.operands := rfl

@[simp] theorem Stmt.results_toOp (s : Stmt) (parent : Option OpId) (loc : Option Loc) :
    (s.toOp parent loc).results = s.defs := rfl

@[simp] theorem Stmt.parent_toOp (s : Stmt) (parent : Option OpId) (loc : Option Loc) :
    (s.toOp parent loc).parent = parent := rfl

def funcOp (sym : String) (params : List (ValueId × Ty)) (region : List OpId) (loc : Option Loc) :
    Op :=
  { kind := .func sym, args := params.map Prod.fst, region, loc }

namespace Program

def Types (p : Program) (typed : List (ValueId × Ty)) : Prop :=
  ∀ v ty, (v, ty) ∈ typed → p.typeOf v = .ok ty

structure HoldsStmt (p : Program) (parent : Option OpId) (id : OpId) (s : Stmt) : Prop where
  op : ∃ loc, p.op? id = some (s.toOp parent loc)
  types : p.Types s.results
  plain : s.kind.isFunc = false

/-- There is a function at a place, with its statements in its region. -/
structure HoldsFunc (p : Program) (id : OpId) (sym : String) (params : List (ValueId × Ty))
    (body : List Stmt) (region : List OpId) : Prop where
  op : ∃ loc, p.op? id = some (funcOp sym params region loc)
  types : p.Types params
  nodup : region.Nodup
  body : List.Forall₂ (p.HoldsStmt (some id)) region body

def HoldsItem (p : Program) (id : OpId) : Item → Prop
  | .op s => p.HoldsStmt none id s
  | .func sym params body => ∃ region, p.HoldsFunc id sym params body region

/-- The body of the program is the outline. -/
structure Represents (p : Program) (o : Outline) : Prop where
  nodup : p.body.Nodup
  items : List.Forall₂ p.HoldsItem p.body o

theorem HoldsStmt.lt {p : Program} {parent : Option OpId} {id : OpId} {s : Stmt}
    (holds : p.HoldsStmt parent id s) : id < p.ops.size := by
  obtain ⟨loc, found⟩ := holds.op
  exact op?_lt found

theorem HoldsItem.lt {p : Program} {id : OpId} {item : Item} (holds : p.HoldsItem id item) :
    id < p.ops.size := by
  cases item with
  | op s => exact HoldsStmt.lt holds
  | func sym params body =>
    obtain ⟨region, func⟩ := holds
    obtain ⟨loc, found⟩ := func.op
    exact op?_lt found

theorem forall₂_exists_of_mem {α β : Type} {R : α → β → Prop} {left : List α} {right : List β}
    (all : List.Forall₂ R left right) {a : α} (mem : a ∈ left) : ∃ b ∈ right, R a b := by
  induction all with
  | nil => cases mem
  | cons head rest ih =>
    rcases List.mem_cons.mp mem with rfl | later
    · exact ⟨_, by simp, head⟩
    · obtain ⟨b, inside, related⟩ := ih later
      exact ⟨b, by simp [inside], related⟩

theorem forall₂_imp_of_mem {α β : Type} {R S : α → β → Prop} {left : List α} {right : List β}
    (all : List.Forall₂ R left right) (imp : ∀ a b, a ∈ left → R a b → S a b) :
    List.Forall₂ S left right := by
  induction all with
  | nil => exact .nil
  | cons head rest ih =>
    exact .cons (imp _ _ (by simp) head) (ih fun a b mem => imp a b (by simp [mem]))

theorem lt_of_mem_body {p : Program} {o : Outline} (rep : p.Represents o) {id : OpId}
    (mem : id ∈ p.body) : id < p.ops.size := by
  obtain ⟨item, -, holds⟩ := forall₂_exists_of_mem rep.items mem
  exact holds.lt

/-- Statements stay where operations and types stay. -/
theorem HoldsStmt.mono {p q : Program} {parent : Option OpId} {id : OpId} {s : Stmt}
    (holds : p.HoldsStmt parent id s)
    (keep : ∀ op, op.kind.isFunc = false → p.op? id = some op → q.op? id = some op)
    (types : ∀ v ty, p.typeOf v = .ok ty → q.typeOf v = .ok ty) : q.HoldsStmt parent id s where
  op := by
    obtain ⟨loc, found⟩ := holds.op
    exact ⟨loc, keep _ holds.plain found⟩
  types v ty mem := types v ty (holds.types v ty mem)
  plain := holds.plain

theorem forall₂_holdsStmt_mono {p q : Program} {parent : Option OpId} {region : List OpId}
    {body : List Stmt} (holds : List.Forall₂ (p.HoldsStmt parent) region body)
    (keep : ∀ other op, op.kind.isFunc = false → p.op? other = some op → q.op? other = some op)
    (types : ∀ v ty, p.typeOf v = .ok ty → q.typeOf v = .ok ty) :
    List.Forall₂ (q.HoldsStmt parent) region body :=
  holds.imp fun other _ stmt => stmt.mono (keep other) types

/-- Items stay where they stay themselves and the statements in them do. -/
theorem HoldsItem.mono {p q : Program} {id : OpId} {item : Item} (holds : p.HoldsItem id item)
    (keep : ∀ other op, op.kind.isFunc = false ∧ op.parent = some id ∨ other = id →
      p.op? other = some op → q.op? other = some op)
    (types : ∀ v ty, p.typeOf v = .ok ty → q.typeOf v = .ok ty) : q.HoldsItem id item := by
  cases item with
  | op s => exact HoldsStmt.mono holds (fun op _ => keep id op (Or.inr rfl)) types
  | func sym params body =>
    obtain ⟨region, func⟩ := holds
    obtain ⟨loc, found⟩ := func.op
    refine ⟨region, ⟨⟨loc, keep id _ (Or.inr rfl) found⟩,
      fun v ty mem => types v ty (func.types v ty mem), func.nodup,
      func.body.imp fun other s stmt => ⟨?_, fun v ty mem => types v ty (stmt.types v ty mem),
        stmt.plain⟩⟩⟩
    obtain ⟨place, here⟩ := stmt.op
    exact ⟨place, keep other _ (Or.inl ⟨stmt.plain, rfl⟩) here⟩

def addStmt (parent : Option OpId) (p : Program) (s : Stmt) : Program :=
  (p.append (s.toOp parent none) (resultInfos p.ops.size s.types)).modifyRegion parent
    (· ++ [p.ops.size])

def addFunc (p : Program) (sym : String) (params : List (ValueId × Ty)) : Program :=
  (p.append (funcOp sym params [] none) (argInfos p.ops.size (params.map Prod.snd))).modifyRegion
    none (· ++ [p.ops.size])

def addItem (p : Program) : Item → Program
  | .op s => p.addStmt none s
  | .func sym params body => body.foldl (addStmt (some p.ops.size)) (p.addFunc sym params)

/-- The program that the outline is read as. -/
def build (name : String) (o : Outline) : Program := o.foldl addItem { name }

end Program

/-- The values of a list are numbered in order from a place on. -/
def NumberedFrom (first : Nat) (values : List ValueId) : Prop :=
  values = List.range' first values.length

theorem NumberedFrom.append_iff {first : Nat} {left right : List ValueId} :
    NumberedFrom first (left ++ right) ↔
      NumberedFrom first left ∧ NumberedFrom (first + left.length) right := by
  unfold NumberedFrom
  rw [List.length_append, ← List.range'_append_1]
  constructor
  · intro same
    exact List.append_inj same (by simp)
  · rintro ⟨sameLeft, sameRight⟩
    rw [← sameLeft, ← sameRight]

theorem NumberedFrom.nil (first : Nat) : NumberedFrom first [] := rfl

namespace Program

/-- New entries give new values their types. -/
theorem types_append {p : Program} {typed : List (ValueId × Ty)} {infos : List ValueInfo}
    (numbered : NumberedFrom p.values.size (typed.map Prod.fst))
    (types : infos.map ValueInfo.ty = typed.map Prod.snd) (op : Op) :
    (p.append op infos).Types typed := by
  intro v ty mem
  obtain ⟨index, inside, here⟩ := List.getElem_of_mem mem
  have fst : (typed.map Prod.fst)[index]? = some v := by
    simp [List.getElem?_eq_getElem inside, here]
  have snd : (infos.map ValueInfo.ty)[index]? = some ty := by
    rw [types]
    simp [List.getElem?_eq_getElem inside, here]
  rw [numbered, List.getElem?_range' (by simpa using inside)] at fst
  have place : v = p.values.size + index := by
    rw [← Option.some.inj fst, Nat.one_mul]
  rw [List.getElem?_map] at snd
  obtain ⟨info, found, sameTy⟩ := Option.map_eq_some_iff.mp snd
  rw [typeOf_eq_ok, place, value?_append_new, found]
  exact ⟨info.origin, by rw [← sameTy]⟩

theorem map_ty_resultInfos (id : OpId) (types : List Ty) :
    (resultInfos id types).map ValueInfo.ty = types := by
  simp [resultInfos, Function.comp_def]

theorem map_ty_argInfos (id : OpId) (types : List Ty) :
    (argInfos id types).map ValueInfo.ty = types := by
  simp [argInfos, Function.comp_def]

theorem length_resultInfos (id : OpId) (types : List Ty) :
    (resultInfos id types).length = types.length := by
  simp [resultInfos]

theorem length_argInfos (id : OpId) (types : List Ty) :
    (argInfos id types).length = types.length := by
  simp [argInfos]

@[simp] theorem size_values_addStmt (parent : Option OpId) (p : Program) (s : Stmt) :
    (p.addStmt parent s).values.size = p.values.size + s.defs.length := by
  simp [addStmt, length_resultInfos]

@[simp] theorem size_values_addFunc (p : Program) (sym : String) (params : List (ValueId × Ty)) :
    (p.addFunc sym params).values.size = p.values.size + params.length := by
  simp [addFunc, length_argInfos]

theorem size_values_addStmts (parent : Option OpId) (p : Program) (body : List Stmt) :
    (body.foldl (addStmt parent) p).values.size =
      p.values.size + (body.flatMap Stmt.defs).length := by
  induction body generalizing p with
  | nil => simp
  | cons s rest ih =>
    rw [List.foldl_cons, ih, size_values_addStmt, List.flatMap_cons, List.length_append]
    omega

theorem size_values_addItem (p : Program) (item : Item) :
    (p.addItem item).values.size = p.values.size + item.defs.length := by
  cases item with
  | op s => exact size_values_addStmt none p s
  | func sym params body =>
    simp only [addItem, size_values_addStmts, size_values_addFunc, Item.defs, List.length_append,
      List.length_map]
    omega

theorem name_addStmts (parent : Option OpId) (p : Program) (body : List Stmt) :
    (body.foldl (addStmt parent) p).name = p.name := by
  induction body generalizing p with
  | nil => rfl
  | cons s rest ih =>
    rw [List.foldl_cons, ih, addStmt, name_modifyRegion]
    rfl

theorem name_build (name : String) (o : Outline) : (build name o).name = name := by
  have kept : ∀ p : Program, (o.foldl addItem p).name = p.name := by
    induction o with
    | nil => exact fun p => rfl
    | cons item rest ih =>
      intro p
      rw [List.foldl_cons, ih]
      cases item with
      | op s => exact name_addStmts none p [s]
      | func sym params body =>
        rw [addItem, name_addStmts, addFunc, name_modifyRegion]
        rfl
  exact kept { name }

theorem typeOf_addStmt {p : Program} {v : ValueId} {ty : Ty} (typed : p.typeOf v = .ok ty)
    (parent : Option OpId) (s : Stmt) : (p.addStmt parent s).typeOf v = .ok ty := by
  rw [addStmt, typeOf_modifyRegion]
  exact typeOf_append_of_ok typed _ _

theorem typeOf_addFunc {p : Program} {v : ValueId} {ty : Ty} (typed : p.typeOf v = .ok ty)
    (sym : String) (params : List (ValueId × Ty)) : (p.addFunc sym params).typeOf v = .ok ty := by
  rw [addFunc, typeOf_modifyRegion]
  exact typeOf_append_of_ok typed _ _

/-- Appending a statement changes the region it goes to, and no other operation. -/
theorem op?_addStmt_of_ne {p : Program} {parent : Option OpId} {id : OpId} {op : Op}
    (found : p.op? id = some op) (other : parent ≠ some id) (s : Stmt) :
    (p.addStmt parent s).op? id = some op := by
  rw [addStmt, op?_modifyRegion, if_neg other]
  exact op?_append_of_some found _ _

theorem op?_addFunc_of_some {p : Program} {id : OpId} {op : Op} (found : p.op? id = some op)
    (sym : String) (params : List (ValueId × Ty)) : (p.addFunc sym params).op? id = some op := by
  rw [addFunc, op?_modifyRegion, if_neg (by simp)]
  exact op?_append_of_some found _ _

theorem holdsStmt_addStmt_new {p : Program} {parent : Option OpId} {s : Stmt}
    (plain : s.kind.isFunc = false) (numbered : NumberedFrom p.values.size s.defs)
    (outside : parent ≠ some p.ops.size) :
    (p.addStmt parent s).HoldsStmt parent p.ops.size s where
  op := by
    refine ⟨none, ?_⟩
    rw [addStmt, op?_modifyRegion, if_neg outside, op?_append, if_pos rfl]
  types v ty mem := by
    rw [addStmt, typeOf_modifyRegion]
    exact types_append numbered (map_ty_resultInfos _ _) _ v ty mem
  plain := plain

theorem represents_addOp {p : Program} {o : Outline} (rep : p.Represents o) {s : Stmt}
    (plain : s.kind.isFunc = false) (numbered : NumberedFrom p.values.size s.defs) :
    (p.addStmt none s).Represents (o ++ [.op s]) where
  nodup := by
    rw [addStmt, body_modifyRegion, if_pos rfl, body_append, List.nodup_append]
    refine ⟨rep.nodup, by simp, ?_⟩
    intro id inside other new
    rw [List.mem_singleton.mp new]
    exact Nat.ne_of_lt (lt_of_mem_body rep inside)
  items := by
    rw [addStmt, body_modifyRegion, if_pos rfl, body_append, ← addStmt]
    refine List.rel_append (rep.items.imp fun id item holds => ?_) (.cons ?_ .nil)
    · exact holds.mono (fun other op _ found => op?_addStmt_of_ne found (by simp) s)
        fun v ty typed => typeOf_addStmt typed none s
    · exact holdsStmt_addStmt_new plain numbered (by simp)

/-- A program that represents an outline but for its last item, a function that may still grow. -/
structure Growing (p : Program) (o : Outline) (func : OpId) (sym : String)
    (params : List (ValueId × Ty)) (body : List Stmt) : Prop where
  nodup : p.body.Nodup
  front : ∃ ids, p.body = ids ++ [func] ∧ List.Forall₂ p.HoldsItem ids o
  func : ∃ region, p.HoldsFunc func sym params body region

theorem Growing.represents {p : Program} {o : Outline} {func : OpId} {sym : String}
    {params : List (ValueId × Ty)} {body : List Stmt}
    (growing : p.Growing o func sym params body) : p.Represents (o ++ [.func sym params body]) where
  nodup := growing.nodup
  items := by
    obtain ⟨ids, shape, front⟩ := growing.front
    rw [shape]
    exact List.rel_append front (.cons growing.func .nil)

theorem growing_addFunc {p : Program} {o : Outline} (rep : p.Represents o) {sym : String}
    {params : List (ValueId × Ty)}
    (numbered : NumberedFrom p.values.size (params.map Prod.fst)) :
    (p.addFunc sym params).Growing o p.ops.size sym params [] where
  nodup := by
    rw [addFunc, body_modifyRegion, if_pos rfl, body_append, List.nodup_append]
    refine ⟨rep.nodup, by simp, ?_⟩
    intro id inside other new
    rw [List.mem_singleton.mp new]
    exact Nat.ne_of_lt (lt_of_mem_body rep inside)
  front := by
    refine ⟨p.body, by rw [addFunc, body_modifyRegion, if_pos rfl, body_append], ?_⟩
    exact rep.items.imp fun id item holds =>
      holds.mono (fun other op _ found => op?_addFunc_of_some found sym params)
        fun v ty typed => typeOf_addFunc typed sym params
  func := by
    refine ⟨[], ⟨none, ?_⟩, ?_, by simp, .nil⟩
    · rw [addFunc, op?_modifyRegion, if_neg (by simp), op?_append, if_pos rfl]
    · intro v ty mem
      rw [addFunc, typeOf_modifyRegion]
      exact types_append numbered (map_ty_argInfos _ _) _ v ty mem

theorem Growing.addStmt {p : Program} {o : Outline} {func : OpId} {sym : String}
    {params : List (ValueId × Ty)} {body : List Stmt}
    (growing : p.Growing o func sym params body) {s : Stmt} (plain : s.kind.isFunc = false)
    (numbered : NumberedFrom p.values.size s.defs) :
    (p.addStmt (some func) s).Growing o func sym params (body ++ [s]) := by
  obtain ⟨ids, shape, front⟩ := growing.front
  obtain ⟨region, holds⟩ := growing.func
  obtain ⟨loc, found⟩ := holds.op
  have isFunc : ∀ id op, op.kind.isFunc = false → p.op? id = some op → some func ≠ some id := by
    rintro id op notFunc here same
    cases same
    rw [found] at here
    cases here
    cases notFunc
  have keepPlain : ∀ id op, op.kind.isFunc = false → p.op? id = some op →
      (p.addStmt (some func) s).op? id = some op :=
    fun id op notFunc here => op?_addStmt_of_ne here (isFunc id op notFunc here) s
  have bodyEq : (p.addStmt (some func) s).body = p.body := by
    rw [Program.addStmt, body_modifyRegion, if_neg (by simp), body_append]
  have fresh : func ≠ p.ops.size := Nat.ne_of_lt (op?_lt found)
  refine ⟨by rw [bodyEq]; exact growing.nodup, ⟨ids, by rw [bodyEq, shape], ?_⟩,
    region ++ [p.ops.size], ⟨⟨loc, ?_⟩, ?_, ?_, ?_⟩⟩
  · -- the items before the function are other operations of the body
    have apart : func ∉ ids := by
      have nodup := growing.nodup
      rw [shape, List.nodup_append] at nodup
      exact fun mem => nodup.2.2 func mem func (by simp) rfl
    refine forall₂_imp_of_mem front fun id item inside holds =>
      holds.mono ?_ fun v ty typed => typeOf_addStmt typed _ s
    rintro other op (⟨notFunc, -⟩ | rfl) here
    · exact keepPlain other op notFunc here
    · refine op?_addStmt_of_ne here ?_ s
      rintro ⟨⟩
      exact apart inside
  · rw [Program.addStmt, op?_modifyRegion, if_pos rfl, op?_append, if_neg fresh, found]
    rfl
  · exact fun v ty mem => typeOf_addStmt (holds.types v ty mem) _ s
  · rw [List.nodup_append]
    refine ⟨holds.nodup, by simp, ?_⟩
    intro id inside other new
    rw [List.mem_singleton.mp new]
    obtain ⟨stmt, -, here⟩ := forall₂_exists_of_mem holds.body inside
    exact Nat.ne_of_lt here.lt
  · refine List.rel_append (forall₂_holdsStmt_mono holds.body keepPlain
      fun v ty typed => typeOf_addStmt typed _ s) (.cons ?_ .nil)
    exact holdsStmt_addStmt_new plain numbered (fun same => fresh (Option.some.inj same))

theorem Growing.addStmts {p : Program} {o : Outline} {func : OpId} {sym : String}
    {params : List (ValueId × Ty)} {body : List Stmt}
    (growing : p.Growing o func sym params body) {more : List Stmt}
    (plain : ∀ s ∈ more, s.kind.isFunc = false)
    (numbered : NumberedFrom p.values.size (more.flatMap Stmt.defs)) :
    (more.foldl (Program.addStmt (some func)) p).Growing o func sym params (body ++ more) := by
  induction more generalizing p body with
  | nil =>
    rw [List.append_nil]
    exact growing
  | cons s rest ih =>
    rw [List.flatMap_cons, NumberedFrom.append_iff, ← size_values_addStmt (some func)] at numbered
    have next := ih (growing.addStmt (plain s (by simp)) numbered.1)
      (fun t mem => plain t (by simp [mem])) numbered.2
    rw [List.append_assoc] at next
    exact next

theorem represents_addItem {p : Program} {o : Outline} (rep : p.Represents o) {item : Item}
    (plain : ∀ s ∈ item.stmts, s.kind.isFunc = false)
    (numbered : NumberedFrom p.values.size item.defs) :
    (p.addItem item).Represents (o ++ [item]) := by
  cases item with
  | op s => exact represents_addOp rep (plain s (by simp [Item.stmts])) numbered
  | func sym params body =>
    rw [Item.defs, NumberedFrom.append_iff, List.length_map,
      ← size_values_addFunc p sym params] at numbered
    exact ((growing_addFunc rep numbered.1).addStmts plain numbered.2).represents

theorem represents_addItems {p : Program} {front : Outline} (rep : p.Represents front) {o : Outline}
    (plain : ∀ s ∈ o.stmts, s.kind.isFunc = false)
    (numbered : NumberedFrom p.values.size o.defs) :
    (o.foldl addItem p).Represents (front ++ o) := by
  induction o generalizing p front with
  | nil =>
    rw [List.append_nil]
    exact rep
  | cons item rest ih =>
    rw [Outline.defs_cons, NumberedFrom.append_iff, ← size_values_addItem] at numbered
    simp only [Outline.stmts_cons, List.mem_append] at plain
    have next := ih (represents_addItem rep (fun s mem => plain s (Or.inl mem)) numbered.1)
      (fun s mem => plain s (Or.inr mem)) numbered.2
    rw [List.append_assoc] at next
    exact next

/-- The program built from an outline represents it, if the outline numbers its values in order. -/
theorem represents_build {o : Outline} (plain : ∀ s ∈ o.stmts, s.kind.isFunc = false)
    (numbered : NumberedFrom 0 o.defs) (name : String) : (build name o).Represents o := by
  have empty : Represents { name } [] := ⟨by simp, .nil⟩
  exact represents_addItems empty plain numbered

def eraseLocs (p : Program) : Program :=
  { p with ops := p.ops.map (Option.map fun op => { op with loc := none }) }

theorem op?_eraseLocs (p : Program) (id : OpId) :
    p.eraseLocs.op? id = (p.op? id).map fun op => { op with loc := none } := by
  simp only [op?, eraseLocs, Array.getElem?_map]
  cases p.ops[id]? with
  | none => rfl
  | some slot => cases slot <;> rfl

@[simp] theorem values_eraseLocs (p : Program) : p.eraseLocs.values = p.values := rfl

@[simp] theorem name_eraseLocs (p : Program) : p.eraseLocs.name = p.name := rfl

@[simp] theorem size_ops_eraseLocs (p : Program) : p.eraseLocs.ops.size = p.ops.size := by
  simp [eraseLocs]

/-- What a program represents does not depend on locations. -/
theorem HoldsStmt.of_eraseLocs {p : Program} {parent : Option OpId} {id : OpId} {s : Stmt}
    (holds : p.eraseLocs.HoldsStmt parent id s) : p.HoldsStmt parent id s where
  op := by
    obtain ⟨loc, found⟩ := holds.op
    rw [op?_eraseLocs] at found
    obtain ⟨op, here, same⟩ := Option.map_eq_some_iff.mp found
    refine ⟨op.loc, ?_⟩
    rw [here]
    cases op
    cases same
    rfl
  types := holds.types
  plain := holds.plain

theorem Represents.of_eraseLocs {p : Program} {o : Outline} (rep : p.eraseLocs.Represents o) :
    p.Represents o where
  nodup := rep.nodup
  items := by
    refine rep.items.imp fun id item holds => ?_
    cases item with
    | op s => exact HoldsStmt.of_eraseLocs holds
    | func sym params body =>
      obtain ⟨region, func⟩ := holds
      obtain ⟨loc, found⟩ := func.op
      rw [op?_eraseLocs] at found
      obtain ⟨op, here, same⟩ := Option.map_eq_some_iff.mp found
      refine ⟨region, ⟨op.loc, ?_⟩, func.types, func.nodup,
        func.body.imp fun other s stmt => stmt.of_eraseLocs⟩
      rw [here]
      cases op
      cases same
      rfl

theorem eraseLocs_append (p : Program) (op : Op) (infos : List ValueInfo) :
    (p.append op infos).eraseLocs = p.eraseLocs.append { op with loc := none } infos := by
  simp [eraseLocs, append]

theorem eraseLocs_modifyRegion (p : Program) (parent : Option OpId)
    (change : List OpId → List OpId) :
    (p.modifyRegion parent change).eraseLocs = p.eraseLocs.modifyRegion parent change := by
  cases parent with
  | none => rfl
  | some id =>
    simp only [modifyRegion, modifyOp, eraseLocs, Program.mk.injEq, true_and, and_true]
    refine Array.ext_getElem? fun other => ?_
    simp only [Array.getElem?_map, Array.getElem?_modify]
    by_cases same : id = other
    · cases p.ops[other]? with
      | none => simp [same]
      | some slot => cases slot <;> simp [same]
    · simp [same]

theorem insertAt_length (items : List OpId) (item : OpId) :
    insertAt items items.length item = items ++ [item] := by
  simp [insertAt]

theorem modifyRegion_congr {p : Program} {parent : Option OpId} {region : List OpId}
    (found : p.region parent = .ok region) (change other : List OpId → List OpId)
    (same : change region = other region) :
    p.modifyRegion parent change = p.modifyRegion parent other := by
  cases parent with
  | none =>
    cases found
    simp only [modifyRegion, same]
  | some id =>
    simp only [Program.region] at found
    split at found
    · rename_i op live
      cases found
      simp only [modifyRegion, modifyOp, Program.mk.injEq, true_and, and_true]
      refine Array.ext_getElem? fun place => ?_
      simp only [Array.getElem?_modify]
      split
      · rename_i here
        cases slot : p.ops[place]? with
        | none => rfl
        | some content =>
          have live' : p.op? place = some op := here ▸ live
          rw [op?, slot] at live'
          rw [show content = some op from live']
          simp [same]
      · rfl
    · cases found

theorem region_append {p : Program} {parent : Option OpId} {region : List OpId}
    (found : p.region parent = .ok region) (op : Op) (infos : List ValueInfo) :
    (p.append op infos).region parent = .ok region := by
  cases parent with
  | none => exact found
  | some id =>
    simp only [Program.region] at found ⊢
    split at found
    · rename_i owner live
      rw [op?_append_of_some live]
      exact found
    · cases found

/-- An operation pushed to a region is a statement added to it. -/
theorem push_eq {p : Program} {parent : Option OpId} {region : List OpId}
    (found : p.region parent = .ok region) (kind : OpKind) (operands : List ValueId)
    (loc : Option Loc) (types : List Ty) :
    ∃ q, p.push parent { kind, operands, loc } types = .ok (p.ops.size, q) ∧
      q.eraseLocs =
        p.eraseLocs.addStmt parent ⟨kind, operands, (p.nextValues types.length).zip types⟩ := by
  refine ⟨_, by simp only [push, insert, found]; rfl, ?_⟩
  have length : (p.nextValues types.length).length = types.length := by simp [nextValues]
  rw [← append, modifyRegion_congr (region_append found _ _) _ (· ++ [p.ops.size])
    (insertAt_length region p.ops.size), eraseLocs_modifyRegion, eraseLocs_append, addStmt]
  simp [Stmt.toOp, Stmt.defs, Stmt.types, List.map_fst_zip, List.map_snd_zip, length]

theorem region_of_push {p q : Program} {parent : Option OpId} {op : Op} {types : List Ty} {id : OpId}
    (pushed : p.push parent op types = .ok (id, q)) : ∃ region, p.region parent = .ok region := by
  unfold push at pushed
  split at pushed
  · cases pushed
  · exact ⟨_, by assumption⟩

theorem addFunction_eq (p : Program) (sym : String) (types : List Ty) (loc : Option Loc) :
    ∃ q, p.addFunction sym types loc = (p.ops.size, p.nextValues types.length, q) ∧
      q.eraseLocs = p.eraseLocs.addFunc sym ((p.nextValues types.length).zip types) := by
  refine ⟨_, rfl, ?_⟩
  have length : (p.nextValues types.length).length = types.length := by simp [nextValues]
  simp [addFunc, eraseLocs, append, modifyRegion, funcOp, List.map_fst_zip, List.map_snd_zip, length]

theorem numbered_nextValues (p : Program) (types : List Ty) :
    NumberedFrom p.values.size (((p.nextValues types.length).zip types).map Prod.fst) := by
  have length : (p.nextValues types.length).length = types.length := by simp [nextValues]
  rw [List.map_fst_zip (Nat.le_of_eq length)]
  simp [NumberedFrom, nextValues]

end Program

end RngLowering
