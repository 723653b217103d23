import RngLowering.Op

/-!
Outlines: programs without their arena.

An outline lists the operations of a program in order, those of functions inside their function. A
statement is an operation by what it computes: its kind, the values it uses, and those it defines with
their types. Two programs with the same outline print alike and compute alike, wherever their
operations are placed.

A value is in scope after the statement that defines it. A function starts with its parameters alone
in scope, and what is in scope at its end stays so until the next function.
-/

set_option autoImplicit false

namespace RngLowering

structure Stmt where
  kind : OpKind
  operands : List ValueId
  results : List (ValueId × Ty)
  deriving DecidableEq

/-- An operation of the top level, or a function. -/
inductive Item where
  | op (stmt : Stmt)
  | func (sym : String) (params : List (ValueId × Ty)) (body : List Stmt)
  deriving DecidableEq

abbrev Outline := List Item

namespace Stmt

def defs (s : Stmt) : List ValueId := s.results.map Prod.fst

def types (s : Stmt) : List Ty := s.results.map Prod.snd

@[simp] theorem length_defs (s : Stmt) : s.defs.length = s.results.length := by simp [defs]

@[simp] theorem length_types (s : Stmt) : s.types.length = s.results.length := by simp [types]

end Stmt

namespace Item

def defs : Item → List ValueId
  | .op s => s.defs
  | .func _ params body => params.map Prod.fst ++ body.flatMap Stmt.defs

def stmts : Item → List Stmt
  | .op s => [s]
  | .func _ _ body => body

end Item

namespace Outline

def defs (o : Outline) : List ValueId := o.flatMap Item.defs

def stmts (o : Outline) : List Stmt := o.flatMap Item.stmts

@[simp] theorem defs_cons (item : Item) (rest : Outline) :
    defs (item :: rest) = item.defs ++ defs rest := rfl

@[simp] theorem stmts_cons (item : Item) (rest : Outline) :
    stmts (item :: rest) = item.stmts ++ stmts rest := rfl

end Outline

theorem Item.mem_defs_of_mem_stmts {item : Item} {s : Stmt} (mem : s ∈ item.stmts) {v : ValueId}
    (defined : v ∈ s.defs) : v ∈ item.defs := by
  cases item with
  | op t =>
    rw [List.mem_singleton.mp mem] at defined
    exact defined
  | func sym params body =>
    exact List.mem_append_right _ (List.mem_flatMap.mpr ⟨s, mem, defined⟩)

theorem Outline.mem_defs_of_mem_stmts {o : Outline} {s : Stmt} (mem : s ∈ o.stmts) {v : ValueId}
    (defined : v ∈ s.defs) : v ∈ o.defs := by
  obtain ⟨item, inside, stmt⟩ := List.mem_flatMap.mp mem
  exact List.mem_flatMap.mpr ⟨item, inside, Item.mem_defs_of_mem_stmts stmt defined⟩

namespace Stmt

def Scoped (scope : List ValueId) (s : Stmt) : Prop := ∀ v ∈ s.operands, v ∈ scope

def scopeAfter (scope : List ValueId) (s : Stmt) : List ValueId := s.defs.reverse ++ scope

/-- Statements in order: each may use what is in scope and what those before it define. -/
def AllScoped : List ValueId → List Stmt → Prop
  | _, [] => True
  | scope, s :: rest => s.Scoped scope ∧ AllScoped (s.scopeAfter scope) rest

def scopeAfterAll (scope : List ValueId) (body : List Stmt) : List ValueId :=
  body.foldl scopeAfter scope

end Stmt

namespace Item

/-- The values in scope at the start of a function, the latest first. -/
def paramScope (params : List (ValueId × Ty)) : List ValueId := (params.map Prod.fst).reverse

def Scoped (scope : List ValueId) : Item → Prop
  | .op s => s.Scoped scope
  | .func _ params body => Stmt.AllScoped (paramScope params) body

def scopeAfter (scope : List ValueId) : Item → List ValueId
  | .op s => s.scopeAfter scope
  | .func _ params body => Stmt.scopeAfterAll (paramScope params) body

end Item

/-- Every use is in scope, where `scope` is what is in scope before. -/
def Outline.Scoped : List ValueId → Outline → Prop
  | _, [] => True
  | scope, item :: rest => item.Scoped scope ∧ Outline.Scoped (item.scopeAfter scope) rest

theorem Stmt.mem_scopeAfter {scope : List ValueId} {s : Stmt} {v : ValueId} :
    v ∈ s.scopeAfter scope ↔ v ∈ s.defs ∨ v ∈ scope := by
  simp [Stmt.scopeAfter]

theorem Stmt.mem_scopeAfterAll {scope : List ValueId} {body : List Stmt} {v : ValueId} :
    v ∈ Stmt.scopeAfterAll scope body ↔ v ∈ body.flatMap Stmt.defs ∨ v ∈ scope := by
  induction body generalizing scope with
  | nil => simp [Stmt.scopeAfterAll]
  | cons s rest ih =>
    change v ∈ Stmt.scopeAfterAll (s.scopeAfter scope) rest ↔ _
    rw [ih, Stmt.mem_scopeAfter, List.flatMap_cons, List.mem_append]
    constructor
    · rintro (later | now | before)
      · exact Or.inl (Or.inr later)
      · exact Or.inl (Or.inl now)
      · exact Or.inr before
    · rintro ((now | later) | before)
      · exact Or.inr (Or.inl now)
      · exact Or.inl later
      · exact Or.inr (Or.inr before)

/-- What is in scope after an item was so before it, or is defined by it. -/
theorem Item.mem_defs_of_mem_scopeAfter {scope : List ValueId} {item : Item} {v : ValueId}
    (mem : v ∈ item.scopeAfter scope) : v ∈ item.defs ∨ v ∈ scope := by
  cases item with
  | op s => exact Stmt.mem_scopeAfter.mp mem
  | func sym params body =>
    rcases Stmt.mem_scopeAfterAll.mp mem with defined | param
    · exact Or.inl (List.mem_append_right _ defined)
    · exact Or.inl (List.mem_append_left _ (List.mem_reverse.mp param))

theorem Stmt.mem_defs_of_allScoped {scope : List ValueId} {body : List Stmt}
    (closed : Stmt.AllScoped scope body) {s : Stmt} (mem : s ∈ body) {v : ValueId}
    (used : v ∈ s.operands) : v ∈ body.flatMap Stmt.defs ∨ v ∈ scope := by
  induction body generalizing scope with
  | nil => cases mem
  | cons head rest ih =>
    rw [List.flatMap_cons, List.mem_append]
    rcases List.mem_cons.mp mem with rfl | later
    · exact Or.inr (closed.1 v used)
    · rcases ih closed.2 later with defined | inScope
      · exact Or.inl (Or.inr defined)
      · rcases Stmt.mem_scopeAfter.mp inScope with now | before
        · exact Or.inl (Or.inl now)
        · exact Or.inr before

/-- A use is defined in the outline, or was in scope before it. -/
theorem Outline.mem_defs_of_scoped {scope : List ValueId} {o : Outline}
    (closed : Outline.Scoped scope o) {s : Stmt} (mem : s ∈ o.stmts) {v : ValueId}
    (used : v ∈ s.operands) : v ∈ o.defs ∨ v ∈ scope := by
  induction o generalizing scope with
  | nil => cases mem
  | cons item rest ih =>
    rw [Outline.defs_cons, List.mem_append]
    rw [Outline.stmts_cons, List.mem_append] at mem
    rcases mem with here | later
    · cases item with
      | op t =>
        rw [List.mem_singleton.mp here] at used
        exact Or.inr (closed.1 v used)
      | func sym params body =>
        rcases Stmt.mem_defs_of_allScoped closed.1 here used with defined | param
        · exact Or.inl (Or.inl (List.mem_append_right _ defined))
        · exact Or.inl (Or.inl (List.mem_append_left _ (List.mem_reverse.mp param)))
    · rcases ih closed.2 later with defined | inScope
      · exact Or.inl (Or.inr defined)
      · rcases Item.mem_defs_of_mem_scopeAfter inScope with now | before
        · exact Or.inl (Or.inl now)
        · exact Or.inr before

theorem Stmt.allScoped_append {scope : List ValueId} {first second : List Stmt} :
    Stmt.AllScoped scope (first ++ second) ↔
      Stmt.AllScoped scope first ∧ Stmt.AllScoped (Stmt.scopeAfterAll scope first) second := by
  induction first generalizing scope with
  | nil => exact ⟨fun closed => ⟨trivial, closed⟩, fun closed => closed.2⟩
  | cons s rest ih => exact (and_congr_right fun _ => ih).trans and_assoc.symm

theorem Stmt.scopeAfterAll_append (scope : List ValueId) (first second : List Stmt) :
    Stmt.scopeAfterAll scope (first ++ second) =
      Stmt.scopeAfterAll (Stmt.scopeAfterAll scope first) second :=
  List.foldl_append

def Outline.scopeAfterAll (scope : List ValueId) (o : Outline) : List ValueId :=
  o.foldl Item.scopeAfter scope

theorem Outline.scoped_append {scope : List ValueId} {first second : Outline} :
    Outline.Scoped scope (first ++ second) ↔
      Outline.Scoped scope first ∧ Outline.Scoped (Outline.scopeAfterAll scope first) second := by
  induction first generalizing scope with
  | nil => exact ⟨fun closed => ⟨trivial, closed⟩, fun closed => closed.2⟩
  | cons item rest ih => exact (and_congr_right fun _ => ih).trans and_assoc.symm

/-- Statements at the top level are in scope as statements in order are. -/
theorem Outline.scoped_map_op {scope : List ValueId} {body : List Stmt} :
    Outline.Scoped scope (body.map .op) ↔ Stmt.AllScoped scope body := by
  induction body generalizing scope with
  | nil => exact Iff.rfl
  | cons s rest ih => exact and_congr_right fun _ => ih

theorem Outline.scopeAfterAll_map_op (scope : List ValueId) (body : List Stmt) :
    Outline.scopeAfterAll scope (body.map .op) = Stmt.scopeAfterAll scope body := by
  simp only [Outline.scopeAfterAll, Stmt.scopeAfterAll, List.foldl_map]
  rfl

def Stmt.rename (f : ValueId → ValueId) (s : Stmt) : Stmt :=
  { s with operands := s.operands.map f, results := s.results.map fun (v, ty) => (f v, ty) }

def Item.rename (f : ValueId → ValueId) : Item → Item
  | .op s => .op (s.rename f)
  | .func sym params body =>
    .func sym (params.map fun (v, ty) => (f v, ty)) (body.map (Stmt.rename f))

def Outline.rename (f : ValueId → ValueId) (o : Outline) : Outline := o.map (Item.rename f)

@[simp] theorem Stmt.defs_rename (f : ValueId → ValueId) (s : Stmt) :
    (s.rename f).defs = s.defs.map f := by
  simp [Stmt.defs, Stmt.rename, Function.comp_def]

@[simp] theorem Stmt.types_rename (f : ValueId → ValueId) (s : Stmt) :
    (s.rename f).types = s.types := by
  simp [Stmt.types, Stmt.rename, Function.comp_def]

@[simp] theorem Item.defs_rename (f : ValueId → ValueId) (item : Item) :
    (item.rename f).defs = item.defs.map f := by
  cases item with
  | op s => exact Stmt.defs_rename f s
  | func sym params body =>
    simp [Item.defs, Item.rename, Function.comp_def, List.flatMap_map, List.map_flatMap]

theorem Outline.defs_rename (f : ValueId → ValueId) (o : Outline) :
    (o.rename f).defs = o.defs.map f := by
  simp [Outline.defs, Outline.rename, List.flatMap_map, List.map_flatMap]

@[simp] theorem Stmt.scopeAfter_rename (f : ValueId → ValueId) (scope : List ValueId) (s : Stmt) :
    (s.rename f).scopeAfter (scope.map f) = (s.scopeAfter scope).map f := by
  simp [Stmt.scopeAfter]

theorem Stmt.scoped_rename {f : ValueId → ValueId} {scope : List ValueId} {s : Stmt}
    (closed : s.Scoped scope) : (s.rename f).Scoped (scope.map f) := by
  intro v used
  obtain ⟨u, mem, rfl⟩ := List.mem_map.mp used
  exact List.mem_map_of_mem (closed u mem)

theorem Stmt.allScoped_rename {f : ValueId → ValueId} {scope : List ValueId} {body : List Stmt}
    (closed : Stmt.AllScoped scope body) :
    Stmt.AllScoped (scope.map f) (body.map (Stmt.rename f)) := by
  induction body generalizing scope with
  | nil => trivial
  | cons s rest ih =>
    refine ⟨Stmt.scoped_rename closed.1, ?_⟩
    rw [Stmt.scopeAfter_rename]
    exact ih closed.2

theorem Stmt.scopeAfterAll_rename (f : ValueId → ValueId) (scope : List ValueId)
    (body : List Stmt) :
    Stmt.scopeAfterAll (scope.map f) (body.map (Stmt.rename f)) =
      (Stmt.scopeAfterAll scope body).map f := by
  induction body generalizing scope with
  | nil => rfl
  | cons s rest ih =>
    change Stmt.scopeAfterAll ((s.rename f).scopeAfter (scope.map f)) _ = _
    rw [Stmt.scopeAfter_rename, ih]
    rfl

theorem Item.paramScope_rename (f : ValueId → ValueId) (params : List (ValueId × Ty)) :
    Item.paramScope (params.map fun (v, ty) => (f v, ty)) = (Item.paramScope params).map f := by
  simp [Item.paramScope, Function.comp_def]

theorem Item.scopeAfter_rename (f : ValueId → ValueId) (scope : List ValueId) (item : Item) :
    (item.rename f).scopeAfter (scope.map f) = (item.scopeAfter scope).map f := by
  cases item with
  | op s => exact Stmt.scopeAfter_rename f scope s
  | func sym params body =>
    simp only [Item.rename, Item.scopeAfter, Item.paramScope_rename, Stmt.scopeAfterAll_rename]

theorem Item.scoped_rename {f : ValueId → ValueId} {scope : List ValueId} {item : Item}
    (closed : item.Scoped scope) : (item.rename f).Scoped (scope.map f) := by
  cases item with
  | op s => exact Stmt.scoped_rename closed
  | func sym params body =>
    change Stmt.AllScoped (Item.paramScope (params.map fun (v, ty) => (f v, ty))) _
    rw [Item.paramScope_rename]
    exact Stmt.allScoped_rename closed

theorem Outline.scoped_rename {f : ValueId → ValueId} {scope : List ValueId} {o : Outline}
    (closed : Outline.Scoped scope o) : Outline.Scoped (scope.map f) (o.rename f) := by
  induction o generalizing scope with
  | nil => trivial
  | cons item rest ih =>
    refine ⟨Item.scoped_rename closed.1, ?_⟩
    rw [Item.scopeAfter_rename]
    exact ih closed.2

end RngLowering
