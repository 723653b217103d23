import Mathlib.Logic.Relation
import RngLowering.Proofs.Meaning
import RngLowering.Proofs.RoundTrip
import RngLowering.Proofs.Survivors

set_option autoImplicit false

namespace RngLowering

namespace StateUpdate

/-- A state update with its parts, as it can be lowered to a counter of the given width. -/
structure Proper (counterBits : Nat) (s : Stmt) (result : ValueId) (parts : Parts) : Prop where
  kind : s.kind = .rngUpdate
  operands : s.operands = [parts.delta]
  results : s.results = [(result, parts.resultTy)]
  deltaValid : parts.deltaTy.isValid = true
  deltaFits : parts.deltaTy.bits ≤ counterBits
  elemValid : parts.elem.isValid = true
  fits : fits parts.resultTy counterBits = true

def deltaStmts (wide : IntTy) (parts : Parts) (next : ValueId) : List Stmt :=
  if parts.deltaTy.bits = wide.bits then []
  else if parts.deltaTy.isSigned then [⟨.extsi, [parts.delta], [(next, .int wide)]⟩]
  else [⟨.extui, [parts.delta], [(next, .int wide)]⟩]

def deltaValue (wide : IntTy) (parts : Parts) (next : ValueId) : ValueId :=
  if parts.deltaTy.bits = wide.bits then parts.delta else next

/-- Cut words out of a value, one for each index. -/
def wordStmts (wide word : IntTy) (old : ValueId) : List Nat → ValueId → List Stmt
  | [], _ => []
  | index :: rest, next =>
    [⟨.constant (truncate wide.bits (index * word.bits)), [], [(next, .int wide)]⟩,
      ⟨.shrui, [old, next], [(next + 1, .int wide)]⟩,
      ⟨.trunci, [next + 1], [(next + 2, .int word)]⟩] ++ wordStmts wide word old rest (next + 3)

def wordValues : List Nat → ValueId → List ValueId
  | [], _ => []
  | _ :: rest, next => (next + 2) :: wordValues rest (next + 3)

/-- The indices of the words, the most significant one first. -/
def Parts.indices (parts : Parts) : List Nat := (List.range parts.count).reverse

def sumValue (wide : IntTy) (parts : Parts) (n : ValueId) : ValueId :=
  n + 2 + (deltaStmts wide parts (n + 2)).length

def packedValue (wide : IntTy) (parts : Parts) (n : ValueId) : ValueId :=
  sumValue wide parts n + 1 + 3 * parts.count

def accessStmts (sym : String) (wide : IntTy) (n : ValueId) : List Stmt :=
  [⟨.getGlobal sym, [], [(n, .memref wide)]⟩, ⟨.load, [n], [(n + 1, .int wide)]⟩]

def advanceStmts (wide : IntTy) (parts : Parts) (n : ValueId) : List Stmt :=
  [⟨.addi, [n + 1, deltaValue wide parts (n + 2)], [(sumValue wide parts n, .int wide)]⟩,
    ⟨.store, [sumValue wide parts n, n], []⟩]

def packStmts (wide : IntTy) (parts : Parts) (n : ValueId) : List Stmt :=
  [⟨.fromElements, wordValues parts.indices (sumValue wide parts n + 1),
      [(packedValue wide parts n, .tensor parts.shape parts.word)]⟩,
    ⟨.cast, [packedValue wide parts n], [(packedValue wide parts n + 1, parts.resultTy)]⟩]

/-- What a state update becomes, where `n` is the first value that is free. -/
def block (sym : String) (wide : IntTy) (parts : Parts) (n : ValueId) : List Stmt :=
  accessStmts sym wide n ++ (deltaStmts wide parts (n + 2) ++ (advanceStmts wide parts n ++
    (wordStmts wide parts.word (n + 1) parts.indices (sumValue wide parts n + 1) ++
      packStmts wide parts n)))

/-- The value of a block that stands for the result. -/
def blockResult (wide : IntTy) (parts : Parts) (n : ValueId) : ValueId := packedValue wide parts n + 1

theorem foldlM_sizeMul? {shape : List Nat} {start count : Nat}
    (done : shape.foldlM sizeMul? start = some count) : shape.foldl (· * ·) start = count := by
  induction shape generalizing start with
  | nil => exact Option.some.inj done
  | cons dim rest ih =>
    rw [List.foldlM_cons] at done
    obtain ⟨next, product, later⟩ := Option.bind_eq_some_iff.mp done
    unfold sizeMul? at product
    split at product
    · cases product
      exact ih later
    · cases product

/-- The words of a tensor that fits a counter lie inside it. -/
theorem count_of_fits {parts : Parts} {counterBits : Nat}
    (small : fits parts.resultTy counterBits = true) :
    (∀ elem, (Ty.tensor parts.shape elem).count? = some parts.count) ∧
      parts.count * parts.elem.bits ≤ counterBits := by
  obtain ⟨packed, product, small⟩ := Option.any_eq_true _ _ |>.mp small
  obtain ⟨count, counted, product⟩ := Option.bind_eq_some_iff.mp product
  have total : parts.count = count := foldlM_sizeMul? counted
  rw [total]
  refine ⟨fun elem => counted, ?_⟩
  unfold sizeMul? at product
  split at product
  · cases product
    exact of_decide_eq_true small
  · cases product

theorem length_wordStmts (wide word : IntTy) (old : ValueId) (indices : List Nat) (next : ValueId) :
    (wordStmts wide word old indices next).length = 3 * indices.length := by
  induction indices generalizing next with
  | nil => rfl
  | cons index rest ih =>
    rw [wordStmts, List.length_append, ih, List.length_cons, List.length_cons]
    simp only [List.length_cons, List.length_nil]
    omega

/-- A delta is widened if it is narrower than the counter. -/
theorem length_deltaStmts {wide : IntTy} {parts : Parts} (upTo : parts.deltaTy.bits ≤ wide.bits)
    (next : ValueId) :
    (deltaStmts wide parts next).length = if parts.deltaTy.bits < wide.bits then 1 else 0 := by
  unfold deltaStmts
  by_cases same : parts.deltaTy.bits = wide.bits
  · rw [if_pos same, if_neg (by omega), List.length_nil]
  · have narrow : parts.deltaTy.bits < wide.bits := by omega
    rw [if_neg same, if_pos narrow]
    split <;> rfl

theorem length_block {wide : IntTy} {parts : Parts} (upTo : parts.deltaTy.bits ≤ wide.bits)
    (sym : String) (n : ValueId) :
    (block sym wide parts n).length =
      6 + (if parts.deltaTy.bits < wide.bits then 1 else 0) + 3 * parts.count := by
  have count : parts.indices.length = parts.count := by simp [Parts.indices]
  simp only [block, accessStmts, advanceStmts, packStmts, List.length_append, List.length_cons,
    List.length_nil, length_wordStmts, length_deltaStmts upTo, count]
  omega

theorem numbered_wordStmts (wide word : IntTy) (old : ValueId) (indices : List Nat) (next : ValueId) :
    NumberedFrom next ((wordStmts wide word old indices next).flatMap Stmt.defs) ∧
      ((wordStmts wide word old indices next).flatMap Stmt.defs).length = 3 * indices.length := by
  induction indices generalizing next with
  | nil => exact ⟨rfl, rfl⟩
  | cons index rest ih =>
    obtain ⟨numbered, length⟩ := ih (next + 3)
    have defs : (wordStmts wide word old (index :: rest) next).flatMap Stmt.defs =
        [next, next + 1, next + 2] ++
          (wordStmts wide word old rest (next + 3)).flatMap Stmt.defs := by
      rw [wordStmts, List.flatMap_append]
      rfl
    rw [defs]
    refine ⟨NumberedFrom.append_iff.mpr ⟨rfl, numbered⟩, ?_⟩
    simp only [List.length_append, List.length_cons, List.length_nil, length]
    omega

theorem defs_deltaStmts (wide : IntTy) (parts : Parts) (next : ValueId) :
    NumberedFrom next ((deltaStmts wide parts next).flatMap Stmt.defs) ∧
      ((deltaStmts wide parts next).flatMap Stmt.defs).length =
        (deltaStmts wide parts next).length := by
  unfold deltaStmts
  split
  · exact ⟨rfl, rfl⟩
  · split <;> exact ⟨rfl, rfl⟩

@[simp] theorem Parts.length_indices (parts : Parts) : parts.indices.length = parts.count := by
  simp [Parts.indices]

/-- A block numbers its values in order. -/
theorem numbered_block (sym : String) (wide : IntTy) (parts : Parts) (n : ValueId) :
    NumberedFrom n ((block sym wide parts n).flatMap Stmt.defs) := by
  obtain ⟨delta, deltaLength⟩ := defs_deltaStmts wide parts (n + 2)
  obtain ⟨words, wordsLength⟩ := numbered_wordStmts wide parts.word (n + 1) parts.indices
    (sumValue wide parts n + 1)
  simp only [block, List.flatMap_append, NumberedFrom.append_iff, deltaLength, wordsLength,
    Parts.length_indices]
  exact ⟨rfl, delta, rfl, words, rfl⟩

theorem wordValues_subset (wide word : IntTy) (old : ValueId) {indices : List Nat} {next v : ValueId}
    (mem : v ∈ wordValues indices next) :
    v ∈ (wordStmts wide word old indices next).flatMap Stmt.defs := by
  induction indices generalizing next with
  | nil => cases mem
  | cons index rest ih =>
    rw [wordStmts, List.flatMap_append, List.mem_append]
    rcases List.mem_cons.mp mem with rfl | later
    · exact Or.inl (by simp [Stmt.defs])
    · exact Or.inr (ih later)

theorem blockResult_mem (sym : String) (wide : IntTy) (parts : Parts) (n : ValueId) :
    blockResult wide parts n ∈ (block sym wide parts n).flatMap Stmt.defs := by
  simp [block, packStmts, Stmt.defs, blockResult]

theorem allScoped_wordStmts (wide word : IntTy) {old : ValueId} {scope : List ValueId}
    (inScope : old ∈ scope) (indices : List Nat) (next : ValueId) :
    Stmt.AllScoped scope (wordStmts wide word old indices next) := by
  induction indices generalizing scope next with
  | nil => trivial
  | cons index rest ih =>
    rw [wordStmts, Stmt.allScoped_append]
    refine ⟨⟨?_, ?_, ?_, trivial⟩, ih (Stmt.mem_scopeAfterAll.mpr (Or.inr inScope)) _⟩
    · simp [Stmt.Scoped]
    · simp [Stmt.Scoped, Stmt.mem_scopeAfter, Stmt.defs, inScope]
    · simp [Stmt.Scoped, Stmt.mem_scopeAfter, Stmt.defs]

/-- A block can stand wherever its delta is in scope. -/
theorem allScoped_block (sym : String) (wide : IntTy) {parts : Parts} (n : ValueId)
    {scope : List ValueId} (inScope : parts.delta ∈ scope) :
    Stmt.AllScoped scope (block sym wide parts n) := by
  simp only [block, Stmt.allScoped_append]
  refine ⟨⟨?_, ?_, trivial⟩, ?_, ⟨?_, ?_, trivial⟩, ?_, ?_, ?_, trivial⟩
  · simp [Stmt.Scoped]
  · simp [Stmt.Scoped, Stmt.mem_scopeAfter, Stmt.defs]
  · have delta : parts.delta ∈ Stmt.scopeAfterAll scope (accessStmts sym wide n) :=
      Stmt.mem_scopeAfterAll.mpr (Or.inr inScope)
    unfold deltaStmts
    split
    · trivial
    · split <;> exact ⟨by simpa [Stmt.Scoped] using delta, trivial⟩
  · intro v used
    simp only [List.mem_cons, List.not_mem_nil, or_false] at used
    rcases used with rfl | rfl
    · simp [Stmt.mem_scopeAfterAll, accessStmts, Stmt.defs]
    · unfold deltaValue deltaStmts
      split
      · simp [Stmt.mem_scopeAfterAll, inScope]
      · split <;> simp [Stmt.mem_scopeAfterAll, Stmt.defs]
  · simp [Stmt.Scoped, Stmt.mem_scopeAfterAll, Stmt.mem_scopeAfter, accessStmts, Stmt.defs]
  · refine allScoped_wordStmts wide parts.word ?_ _ _
    simp [Stmt.mem_scopeAfterAll, accessStmts, Stmt.defs]
  · intro v used
    exact Stmt.mem_scopeAfterAll.mpr (Or.inl (wordValues_subset wide parts.word (n + 1) used))
  · simp [Stmt.Scoped, Stmt.mem_scopeAfter, Stmt.defs]

/-- A block uses the delta and what it defines itself. -/
theorem operands_block {sym : String} {wide : IntTy} {parts : Parts} {n : ValueId} {s : Stmt}
    (mem : s ∈ block sym wide parts n) {v : ValueId} (used : v ∈ s.operands) :
    v = parts.delta ∨ n ≤ v := by
  have closed : Stmt.AllScoped [parts.delta] (block sym wide parts n) :=
    allScoped_block sym wide n (by simp)
  rcases Stmt.mem_defs_of_allScoped closed mem used with defined | delta
  · rw [numbered_block sym wide parts n, List.mem_range'_1] at defined
    exact Or.inr defined.1
  · exact Or.inl (List.mem_singleton.mp delta)

/-- Rewiring does not change a block whose delta stays. -/
theorem block_rewire {f : ValueId → ValueId} {parts : Parts} {n : ValueId}
    (delta : f parts.delta = parts.delta) (new : ∀ v, n ≤ v → f v = v) (sym : String)
    (wide : IntTy) : (block sym wide parts n).map (Stmt.rewire f) = block sym wide parts n := by
  have each : ∀ s ∈ block sym wide parts n, s.rewire f = id s := by
    intro s mem
    have uses : ∀ v ∈ s.operands, f v = id v := by
      intro v used
      rcases operands_block mem used with rfl | later
      · exact delta
      · exact new v later
    rw [Stmt.rewire, List.map_congr_left uses, List.map_id]
    rfl
  rw [List.map_congr_left each, List.map_id]

end StateUpdate

/-- What is in one scope is in the other one by its new name. -/
def ScopeRel (f : ValueId → ValueId) (scope other : List ValueId) : Prop :=
  ∀ v ∈ scope, f v ∈ other

section

variable {f : ValueId → ValueId} {scope other : List ValueId}

@[simp] theorem Stmt.defs_rewire (f : ValueId → ValueId) (s : Stmt) : (s.rewire f).defs = s.defs := rfl

theorem Stmt.scoped_rewire (rel : ScopeRel f scope other) {s : Stmt} (closed : s.Scoped scope) :
    (s.rewire f).Scoped other := by
  intro v used
  obtain ⟨u, mem, rfl⟩ := List.mem_map.mp used
  exact rel u (closed u mem)

theorem ScopeRel.bind (rel : ScopeRel f scope other) {defs : List ValueId}
    (fixed : ∀ v ∈ defs, f v = v) : ScopeRel f (defs.reverse ++ scope) (defs.reverse ++ other) := by
  intro v mem
  rcases List.mem_append.mp mem with defined | before
  · rw [fixed v (List.mem_reverse.mp defined)]
    exact List.mem_append_left _ defined
  · exact List.mem_append_right _ (rel v before)

theorem Stmt.allScoped_rewire (rel : ScopeRel f scope other) {body : List Stmt}
    (closed : Stmt.AllScoped scope body) (fixed : ∀ v ∈ body.flatMap Stmt.defs, f v = v) :
    Stmt.AllScoped other (body.map (Stmt.rewire f)) ∧
      ScopeRel f (Stmt.scopeAfterAll scope body)
        (Stmt.scopeAfterAll other (body.map (Stmt.rewire f))) := by
  induction body generalizing scope other with
  | nil => exact ⟨trivial, rel⟩
  | cons s rest ih =>
    simp only [List.flatMap_cons, List.mem_append] at fixed
    have next : ScopeRel f (s.scopeAfter scope) ((s.rewire f).scopeAfter other) :=
      rel.bind fun v mem => fixed v (Or.inl mem)
    obtain ⟨later, after⟩ := ih next closed.2 fun v mem => fixed v (Or.inr mem)
    exact ⟨⟨Stmt.scoped_rewire rel closed.1, later⟩, after⟩

theorem ScopeRel.params {params : List (ValueId × Ty)}
    (fixed : ∀ v ∈ params.map Prod.fst, f v = v) :
    ScopeRel f (Item.paramScope params) (Item.paramScope params) := by
  intro v mem
  rw [fixed v (List.mem_reverse.mp mem)]
  exact mem

theorem Item.scoped_rewire (rel : ScopeRel f scope other) {item : Item}
    (closed : item.Scoped scope) (fixed : ∀ v ∈ item.defs, f v = v) :
    (item.rewire f).Scoped other ∧
      ScopeRel f (item.scopeAfter scope) ((item.rewire f).scopeAfter other) := by
  cases item with
  | op s => exact ⟨Stmt.scoped_rewire rel closed, rel.bind fixed⟩
  | func sym params body =>
    simp only [Item.defs, List.mem_append] at fixed
    exact Stmt.allScoped_rewire (ScopeRel.params fun v mem => fixed v (Or.inl mem)) closed
      fun v mem => fixed v (Or.inr mem)

theorem Outline.scoped_rewire (rel : ScopeRel f scope other) {o : Outline}
    (closed : Outline.Scoped scope o) (fixed : ∀ v ∈ o.defs, f v = v) :
    Outline.Scoped other (Outline.rewire f o) ∧
      ScopeRel f (Outline.scopeAfterAll scope o)
        (Outline.scopeAfterAll other (Outline.rewire f o)) := by
  induction o generalizing scope other with
  | nil => exact ⟨trivial, rel⟩
  | cons item rest ih =>
    simp only [Outline.defs_cons, List.mem_append] at fixed
    obtain ⟨here, next⟩ := Item.scoped_rewire rel closed.1 fun v mem => fixed v (Or.inl mem)
    obtain ⟨later, after⟩ := ih next closed.2 fun v mem => fixed v (Or.inr mem)
    exact ⟨⟨here, later⟩, after⟩

end

namespace Cursor

def defsBefore : Cursor → List ValueId
  | .top before _ => before.defs
  | .inner before _ params front _ _ =>
    before.defs ++ (params.map Prod.fst ++ front.flatMap Stmt.defs)

def defsAfter : Cursor → List ValueId
  | .top _ after => after.defs
  | .inner _ _ _ _ back after => back.flatMap Stmt.defs ++ after.defs

theorem defs_map_op (body : List Stmt) : Outline.defs (body.map .op) = body.flatMap Stmt.defs := by
  simp only [Outline.defs, List.flatMap_map]
  rfl

theorem defs_ahead (c : Cursor) (more : List Stmt) :
    (c.ahead more).outline.defs = c.defsBefore ++ (more.flatMap Stmt.defs ++ c.defsAfter) := by
  cases c with
  | top before after =>
    have all := defs_map_op more
    simp only [Outline.defs] at all
    simp [ahead, outline, defsBefore, defsAfter, Outline.defs, all]
  | inner before sym params front back after =>
    simp [ahead, outline, defsBefore, defsAfter, Outline.defs, Item.defs]

/-- Statements that stand for another one where it was stay in scope, and so does what comes after,
if it uses the new names. -/
theorem scoped_rewire {f : ValueId → ValueId} {c : Cursor} {s : Stmt} {more : List Stmt}
    (closed : (c.ahead [s]).outline.Scoped []) (before : ∀ v ∈ c.defsBefore, f v = v)
    (after : ∀ v ∈ c.defsAfter, f v = v)
    (stands : ∀ scope other, ScopeRel f scope other → s.Scoped scope →
      Stmt.AllScoped other (more.map (Stmt.rewire f)) ∧
        ScopeRel f (s.scopeAfter scope)
          (Stmt.scopeAfterAll other (more.map (Stmt.rewire f)))) :
    (Outline.rewire f (c.ahead more).outline).Scoped [] := by
  have empty : ScopeRel f [] [] := fun v mem => by cases mem
  cases c with
  | top pre post =>
    simp only [ahead, outline, List.map_cons, List.map_nil] at closed ⊢
    obtain ⟨closedPre, closedStmt, closedPost⟩ := Outline.scoped_append.mp closed
    obtain ⟨scopedPre, relPre⟩ := Outline.scoped_rewire empty closedPre before
    obtain ⟨scopedMore, relMore⟩ := stands _ _ relPre closedStmt
    have scopedPost := (Outline.scoped_rewire relMore closedPost after).1
    have shape : Outline.rewire f (pre ++ (more.map .op ++ post)) =
        Outline.rewire f pre ++ ((more.map (Stmt.rewire f)).map .op ++ Outline.rewire f post) := by
      simp [Outline.rewire, Item.rewire]
    rw [shape, Outline.scoped_append, Outline.scoped_append, Outline.scoped_map_op,
      Outline.scopeAfterAll_map_op]
    exact ⟨scopedPre, scopedMore, scopedPost⟩
  | inner pre sym params front back post =>
    simp only [ahead, outline] at closed ⊢
    simp only [defsBefore, List.mem_append] at before
    simp only [defsAfter, List.mem_append] at after
    obtain ⟨closedPre, closedFunc, closedPost⟩ := Outline.scoped_append.mp closed
    obtain ⟨closedFront, closedStmt, closedBack⟩ := Stmt.allScoped_append.mp closedFunc
    obtain ⟨scopedPre, relPre⟩ := Outline.scoped_rewire empty closedPre
      fun v mem => before v (Or.inl mem)
    obtain ⟨scopedFront, relFront⟩ := Stmt.allScoped_rewire
      (ScopeRel.params fun v mem => before v (Or.inr (Or.inl mem))) closedFront
      fun v mem => before v (Or.inr (Or.inr mem))
    obtain ⟨scopedMore, relMore⟩ := stands _ _ relFront closedStmt
    obtain ⟨scopedBack, relBack⟩ := Stmt.allScoped_rewire relMore closedBack
      fun v mem => after v (Or.inl mem)
    have scopeOld : (Item.func sym params (front ++ ([s] ++ back))).scopeAfter
        (Outline.scopeAfterAll [] pre) = Stmt.scopeAfterAll (s.scopeAfter
          (Stmt.scopeAfterAll (Item.paramScope params) front)) back := by
      simp only [Item.scopeAfter, Stmt.scopeAfterAll_append]
      rfl
    rw [scopeOld] at closedPost
    have scopedPost := (Outline.scoped_rewire relBack closedPost
      fun v mem => after v (Or.inr mem)).1
    have shape : Outline.rewire f (pre ++ .func sym params (front ++ (more ++ back)) :: post) =
        Outline.rewire f pre ++ .func sym params (front.map (Stmt.rewire f) ++
          (more.map (Stmt.rewire f) ++ back.map (Stmt.rewire f))) :: Outline.rewire f post := by
      simp [Outline.rewire, Item.rewire]
    rw [shape, Outline.scoped_append]
    refine ⟨scopedPre, ?_, ?_⟩
    · exact Stmt.allScoped_append.mpr
        ⟨scopedFront, Stmt.allScoped_append.mpr ⟨scopedMore, scopedBack⟩⟩
    · simp only [Item.scopeAfter, Stmt.scopeAfterAll_append]
      exact scopedPost

end Cursor

def Item.typed : Item → List (ValueId × Ty)
  | .op s => s.results
  | .func _ params body => params ++ body.flatMap Stmt.results

def Outline.typed (o : Outline) : List (ValueId × Ty) := o.flatMap Item.typed

def Config.counterStmt (config : Config) : Stmt :=
  ⟨.global ⟨config.stateSymbol, Counter.cellTy config.counterBits,
    truncate config.counterBits config.seed, .hidden, false⟩, [], []⟩

def Config.wide (config : Config) : IntTy := .signless config.counterBits

namespace StateUpdate

/-- A state update at a point of an outline, as it can be lowered: the parts are those of the statement,
the name of the counter stands for a counter cell, and the values from `n` on are free. -/
structure Site (config : Config) (c : Cursor) (s : Stmt) (parts : Parts) (r n : ValueId) : Prop where
  proper : Proper config.counterBits s r parts
  typed : ∀ ty, (parts.delta, ty) ∈ (c.ahead [s]).outline.typed → ty = .int parts.deltaTy
  counter : ((c.ahead [s]).outline.find? fun item => item.kind.defines config.stateSymbol).any
    fun item => Counter.isCell item.kind config.counterBits
  fresh : ∀ v ∈ (c.ahead [s]).outline.defs, v < n

/-- The outline with a block at the point, whose result is used for that of the state update. -/
def expanded (config : Config) (c : Cursor) (parts : Parts) (r n : ValueId) : Outline :=
  Outline.rewire (swap r (blockResult config.wide parts n))
    (c.ahead (block config.stateSymbol config.wide parts n)).outline

end StateUpdate

/-- One step of lowering an outline. -/
inductive Outline.Step (config : Config) : Outline → Outline → Prop
  | create {o : Outline}
      (undefined : ∀ item ∈ o, item.kind.defines config.stateSymbol = false) :
      Step config o (.op config.counterStmt :: o)
  | expand {c : Cursor} {s : Stmt} {parts : StateUpdate.Parts} {r n : ValueId}
      (site : StateUpdate.Site config c s parts r n) :
      Step config (c.ahead [s]).outline (StateUpdate.expanded config c parts r n)

/-- Every value is defined once, and before it is used. -/
structure Outline.Closed (o : Outline) : Prop where
  nodup : o.defs.Nodup
  inScope : o.Scoped []

section

variable {config : Config} {o after : Outline} {c : Cursor} {s : Stmt} {parts : StateUpdate.Parts}
  {r n : ValueId}

theorem Outline.map_fst_typed (o : Outline) : o.typed.map Prod.fst = o.defs := by
  unfold Outline.typed Outline.defs
  rw [List.map_flatMap]
  refine List.flatMap_congr fun item _ => ?_
  cases item with
  | op s => rfl
  | func sym params body =>
    rw [Item.typed, Item.defs, List.map_append, List.map_flatMap]
    rfl

/-- The values of an outline have their types in a program that represents it. -/
theorem Program.Represents.types {p : Program} (rep : p.Represents o) : p.Types o.typed := by
  intro v ty mem
  obtain ⟨item, inside, declared⟩ := List.mem_flatMap.mp mem
  obtain ⟨id, -, holds⟩ := forall₂_exists_of_mem rep.items.flip inside
  cases item with
  | op s => exact HoldsStmt.types holds v ty declared
  | func sym params body =>
    obtain ⟨region, func⟩ := holds
    rcases List.mem_append.mp declared with param | result
    · exact func.types v ty param
    · obtain ⟨s, inBody, declared⟩ := List.mem_flatMap.mp result
      obtain ⟨id, -, stmt⟩ := forall₂_exists_of_mem func.body.flip inBody
      exact stmt.types v ty declared

theorem Program.Represents.lt_of_mem_defs {p : Program} (rep : p.Represents o) {v : ValueId}
    (mem : v ∈ o.defs) : v < p.values.size := by
  rw [← Outline.map_fst_typed] at mem
  obtain ⟨⟨v, ty⟩, declared, rfl⟩ := List.mem_map.mp mem
  exact typeOf_lt (rep.types v ty declared)

theorem Outline.mem_typed_of_mem_stmts (mem : s ∈ o.stmts) {v : ValueId} {ty : Ty}
    (defined : (v, ty) ∈ s.results) : (v, ty) ∈ o.typed := by
  obtain ⟨item, inside, stmt⟩ := List.mem_flatMap.mp mem
  refine List.mem_flatMap.mpr ⟨item, inside, ?_⟩
  cases item with
  | op t =>
    rw [List.mem_singleton.mp stmt] at defined
    exact defined
  | func sym params body =>
    exact List.mem_append_right _ (List.mem_flatMap.mpr ⟨s, stmt, defined⟩)

theorem Cursor.mem_stmts (c : Cursor) (s : Stmt) : s ∈ (c.ahead [s]).outline.stmts := by
  cases c with
  | top before after =>
    exact List.mem_flatMap.mpr ⟨.op s, by simp [Cursor.ahead, Cursor.outline], by simp [Item.stmts]⟩
  | inner before sym params front back after =>
    refine List.mem_flatMap.mpr ⟨.func sym params (front ++ ([s] ++ back)), ?_, by simp [Item.stmts]⟩
    simp [Cursor.ahead, Cursor.outline]

namespace StateUpdate

theorem Proper.defs (proper : Proper config.counterBits s r parts) : s.defs = [r] := by
  rw [Stmt.defs, proper.results]
  rfl

theorem le_of_mem_block {sym : String} {wide : IntTy} {v : ValueId}
    (mem : v ∈ (block sym wide parts n).flatMap Stmt.defs) : n ≤ v := by
  rw [numbered_block sym wide parts n, List.mem_range'_1] at mem
  exact mem.1

namespace Site

theorem result_mem (site : Site config c s parts r n) : r ∈ (c.ahead [s]).outline.defs :=
  Outline.mem_defs_of_mem_stmts (c.mem_stmts s) (by simp [site.proper.defs])

/-- The delta of a state update is not its result. -/
theorem delta_ne (site : Site config c s parts r n) : parts.delta ≠ r := by
  intro same
  have declared : (r, parts.resultTy) ∈ (c.ahead [s]).outline.typed :=
    Outline.mem_typed_of_mem_stmts (c.mem_stmts s) (by simp [site.proper.results])
  cases site.typed parts.resultTy (same ▸ declared)

theorem defs_eq (site : Site config c s parts r n) :
    (c.ahead [s]).outline.defs = c.defsBefore ++ r :: c.defsAfter := by
  rw [Cursor.defs_ahead, List.flatMap_cons, List.flatMap_nil, List.append_nil, site.proper.defs]
  rfl

/-- The result is defined at the point alone. -/
theorem nodup_cons (site : Site config c s parts r n) (closed : (c.ahead [s]).outline.Closed) :
    (r :: (c.defsBefore ++ c.defsAfter)).Nodup := by
  have nodup := closed.nodup
  rw [site.defs_eq] at nodup
  exact List.perm_middle.nodup_iff.mp nodup

theorem swap_eq_self (site : Site config c s parts r n) (closed : (c.ahead [s]).outline.Closed)
    {v : ValueId} (mem : v ∈ c.defsBefore ++ c.defsAfter) (new : ValueId) : swap r new v = v := by
  refine swap_of_ne ?_
  rintro rfl
  exact (List.nodup_cons.mp (site.nodup_cons closed)).1 mem

theorem rewire_block (site : Site config c s parts r n) (new : ValueId) (sym : String)
    (wide : IntTy) :
    (block sym wide parts n).map (Stmt.rewire (swap r new)) = block sym wide parts n := by
  refine block_rewire (swap_of_ne site.delta_ne) (fun v later => swap_of_ne ?_) sym wide
  rintro rfl
  exact Nat.not_lt_of_le later (site.fresh _ site.result_mem)

end Site

end StateUpdate

@[simp] theorem Item.defs_rewire (f : ValueId → ValueId) (item : Item) :
    (item.rewire f).defs = item.defs := by
  cases item with
  | op s => rfl
  | func sym params body => simp [Item.rewire, Item.defs, List.flatMap_map]

@[simp] theorem Outline.defs_rewire (f : ValueId → ValueId) (o : Outline) :
    (Outline.rewire f o).defs = o.defs := by
  simp [Outline.defs, Outline.rewire, List.flatMap_map]

/-- A step keeps an outline closed. -/
theorem Outline.Step.closed (step : Outline.Step config o after) (closed : o.Closed) :
    after.Closed := by
  cases step with
  | create undefined =>
    refine ⟨closed.nodup, ?_, closed.inScope⟩
    intro v used
    cases used
  | @expand c s parts r n site =>
    constructor
    · rw [StateUpdate.expanded, Outline.defs_rewire, Cursor.defs_ahead,
        (List.perm_append_comm_assoc _ _ _).nodup_iff, List.nodup_append]
      refine ⟨nodup_of_numbered (StateUpdate.numbered_block _ _ parts n),
        (List.nodup_cons.mp (site.nodup_cons closed)).2, ?_⟩
      intro v inBlock w outside
      have below : w < n := by
        refine site.fresh w ?_
        rw [site.defs_eq, List.perm_middle.mem_iff]
        exact List.mem_cons_of_mem _ outside
      exact (Nat.ne_of_lt (Nat.lt_of_lt_of_le below (StateUpdate.le_of_mem_block inBlock))).symm
    · refine Cursor.scoped_rewire closed.inScope
        (fun v mem => site.swap_eq_self closed (List.mem_append_left _ mem) _)
        (fun v mem => site.swap_eq_self closed (List.mem_append_right _ mem) _)
        fun scope other rel inScope => ?_
      rw [site.rewire_block]
      have deltaInScope : parts.delta ∈ other := by
        have moved := rel _ (inScope parts.delta (by simp [site.proper.operands]))
        rwa [swap_of_ne site.delta_ne] at moved
      refine ⟨StateUpdate.allScoped_block _ _ n deltaInScope, fun v mem => ?_⟩
      rw [Stmt.mem_scopeAfterAll]
      rcases Stmt.mem_scopeAfter.mp mem with isResult | before
      · rw [site.proper.defs] at isResult
        rw [List.mem_singleton.mp isResult, swap_self]
        exact Or.inl (StateUpdate.blockResult_mem _ _ _ _)
      · exact Or.inr (rel v before)

theorem Outline.closed_of_steps (steps : Relation.ReflTransGen (Outline.Step config) o after)
    (closed : o.Closed) : after.Closed := by
  induction steps with
  | refl => exact closed
  | tail _ step ih => exact step.closed ih

end

end RngLowering
