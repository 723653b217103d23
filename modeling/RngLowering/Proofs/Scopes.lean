import RngLowering.Proofs.DefUse

set_option autoImplicit false

namespace RngLowering

namespace Program

/-- The value belongs to a function, as an argument or as a result of one of its operations, or to the
top level, as a result of one of its operations. -/
def Owns (p : Program) (owner : Option OpId) (v : ValueId) : Prop :=
  (∃ d made, p.op? d = some made ∧ made.parent = owner ∧ v ∈ made.results) ∨
    ∃ func op, owner = some func ∧ p.op? func = some op ∧ v ∈ op.args

/-- What is used belongs where it is used. -/
def KeepsScopes (p : Program) : Prop :=
  ∀ id op, p.op? id = some op → ∀ v ∈ op.operands, p.Owns op.parent v

def IsFunction (p : Program) (id : OpId) : Prop := ∃ op, p.op? id = some op ∧ op.kind.isFunc = true

def LastFunction (p : Program) (ids : List OpId) (func : OpId) : Prop :=
  ∃ front back, ids = front ++ func :: back ∧ p.IsFunction func ∧ ∀ id ∈ back, ¬ p.IsFunction id

def FunctionBefore (p : Program) (func id : OpId) : Prop :=
  ∃ front back, p.body = front ++ id :: back ∧ p.LastFunction front func

/-- The value can be used after these operations of the top level. -/
def Sees (p : Program) (seen : List OpId) (v : ValueId) : Prop :=
  p.Owns none v ∨ ∃ func, p.LastFunction seen func ∧ p.Owns (some func) v

section

variable {p : Program} {o : Outline} {id : OpId} {op : Op} {v : ValueId}

/-- A value belongs to one place. -/
theorem WellFormed.eq_of_owns (wf : p.WellFormed) {first second : Option OpId}
    (left : p.Owns first v) (right : p.Owns second v) : first = second := by
  rcases left with ⟨d, made, found, parent, result⟩ | ⟨func, op, rfl, found, arg⟩ <;>
    rcases right with ⟨e, other, foundOther, parentOther, isResult⟩ |
      ⟨func', op', rfl, foundOther, isArg⟩
  · obtain ⟨_, _, here⟩ := wf.value?_of_mem_results found result
    obtain ⟨_, _, there⟩ := wf.value?_of_mem_results foundOther isResult
    rw [here] at there
    cases there
    rw [found] at foundOther
    cases foundOther
    exact parent.symm.trans parentOther
  · obtain ⟨_, _, here⟩ := wf.value?_of_mem_results found result
    obtain ⟨_, _, there⟩ := wf.value?_of_mem_args foundOther isArg
    rw [here] at there
    cases there
  · obtain ⟨_, _, here⟩ := wf.value?_of_mem_args found arg
    obtain ⟨_, _, there⟩ := wf.value?_of_mem_results foundOther isResult
    rw [here] at there
    cases there
  · obtain ⟨_, _, here⟩ := wf.value?_of_mem_args found arg
    obtain ⟨_, _, there⟩ := wf.value?_of_mem_args foundOther isArg
    rw [here] at there
    cases there
    rfl

theorem Represents.parent_of_isFunc (rep : p.Represents o) (wf : p.WellFormed)
    (found : p.op? id = some op) (isFunc : op.kind.isFunc = true) : op.parent = none := by
  have inWalk := wf.mem_walk_of_op? found
  rw [walk_eq rep] at inWalk
  obtain ⟨root, inBody, here⟩ := List.mem_flatMap.mp inWalk
  obtain ⟨item, -, holds⟩ := forall₂_exists_of_mem rep.items inBody
  rcases List.mem_cons.mp here with rfl | inside
  · exact holds.parent_eq found
  · obtain ⟨owner, foundOwner⟩ := holds.exists_op
    obtain ⟨s, stmt⟩ := holds.holdsStmt foundOwner (by simpa [nested, foundOwner] using inside)
    obtain ⟨loc, isStmt⟩ := stmt.op
    rw [found] at isStmt
    cases isStmt
    rw [Stmt.kind_toOp, stmt.plain] at isFunc
    cases isFunc

/-- An operation of a function uses values of that function. -/
theorem Represents.owns_of_parent (rep : p.Represents o) (wf : p.WellFormed) (closed : o.Scoped [])
    (found : p.op? id = some op) {func : OpId} (inside : op.parent = some func)
    (used : v ∈ op.operands) : p.Owns (some func) v := by
  obtain ⟨d, made, foundMade, defines, -, place⟩ :=
    (rep.definedBeforeUse wf closed).uses id op found v used
  rcases place func inside with ⟨rfl, arg⟩ | parent
  · exact .inr ⟨d, made, rfl, foundMade, arg⟩
  · rcases defines with result | ⟨isFunc, -⟩
    · exact .inl ⟨d, made, foundMade, parent, result⟩
    · rw [rep.parent_of_isFunc wf foundMade isFunc] at parent
      cases parent

variable {seen : List OpId} {values : List ValueId} {item : Item}

theorem HoldsStmt.not_isFunction {parent : Option OpId} {s : Stmt} (holds : p.HoldsStmt parent id s) :
    ¬ p.IsFunction id := by
  rintro ⟨op, found, isFunc⟩
  obtain ⟨loc, here⟩ := holds.op
  rw [here] at found
  cases found
  rw [Stmt.kind_toOp, holds.plain] at isFunc
  cases isFunc

theorem LastFunction.append {func : OpId} (last : p.LastFunction seen func)
    (other : ¬ p.IsFunction id) : p.LastFunction (seen ++ [id]) func := by
  obtain ⟨front, back, rfl, isFunction, none⟩ := last
  refine ⟨front, back ++ [id], by simp, isFunction, fun later mem => ?_⟩
  rcases List.mem_append.mp mem with inBack | isLast
  · exact none later inBack
  · rw [List.mem_singleton.mp isLast]
    exact other

theorem lastFunction_append_self (seen : List OpId) (isFunction : p.IsFunction id) :
    p.LastFunction (seen ++ [id]) id :=
  ⟨seen, [], rfl, isFunction, fun later mem => by cases mem⟩

/-- What can be used after an item is its own or could be used before it. A function leaves nothing but
its own values. -/
theorem HoldsItem.sees_after (holds : p.HoldsItem id item) (sees : ∀ v ∈ values, p.Sees seen v) :
    ∀ v ∈ item.scopeAfter values, p.Sees (seen ++ [id]) v := by
  intro v mem
  cases item with
  | op s =>
    have stmt : p.HoldsStmt none id s := holds
    rcases Stmt.mem_scopeAfter.mp mem with now | before
    · obtain ⟨loc, here⟩ := stmt.op
      exact .inl (.inl ⟨id, _, here, rfl, now⟩)
    · refine (sees v before).imp_right ?_
      rintro ⟨func, last, owns⟩
      exact ⟨func, last.append stmt.not_isFunction, owns⟩
  | func sym params body =>
    obtain ⟨region, func⟩ := holds
    obtain ⟨loc, here⟩ := func.op
    refine .inr ⟨id, lastFunction_append_self seen ⟨_, here, rfl⟩, ?_⟩
    rcases Stmt.mem_scopeAfterAll.mp mem with defined | param
    · obtain ⟨s, inBody, isDef⟩ := List.mem_flatMap.mp defined
      obtain ⟨d, inRegion, stmt⟩ := forall₂_exists_of_mem func.body.flip inBody
      obtain ⟨place, made⟩ := stmt.op
      exact .inl ⟨d, _, made, rfl, isDef⟩
    · exact .inr ⟨id, _, rfl, here, List.mem_reverse.mp param⟩

/-- An item uses what can be used before it. -/
theorem HoldsItem.sees (holds : p.HoldsItem id item) (sees : ∀ v ∈ values, p.Sees seen v)
    (closed : item.Scoped values) (found : p.op? id = some op) (used : v ∈ op.operands) :
    p.Sees seen v := by
  cases item with
  | op s =>
    obtain ⟨loc, here⟩ := HoldsStmt.op holds
    rw [here] at found
    cases found
    exact sees v (closed v used)
  | func sym params body =>
    obtain ⟨region, func⟩ := holds
    obtain ⟨loc, here⟩ := func.op
    rw [here] at found
    cases found
    cases used

/-- Items in order, each after those before it. -/
theorem sees_of_items {ids front back : List OpId} (holds : List.Forall₂ p.HoldsItem ids o)
    (sees : ∀ v ∈ values, p.Sees seen v) (closed : o.Scoped values) (split : ids = front ++ id :: back)
    (found : p.op? id = some op) (used : v ∈ op.operands) : p.Sees (seen ++ front) v := by
  -- what can be used changes item by item, along with what was seen
  induction holds generalizing seen values front with
  | nil => simp at split
  | @cons head item rest items first later ih =>
    cases front with
    | nil =>
      obtain ⟨rfl, -⟩ := List.cons.inj split
      rw [List.append_nil]
      exact first.sees sees closed.1 found used
    | cons other front =>
      obtain ⟨rfl, tail⟩ := List.cons.inj split
      rw [List.append_cons]
      exact ih (first.sees_after sees) closed.2 tail

/-- An operation of the top level uses values of the top level, or of the last function before it. -/
theorem Represents.sees_of_top (rep : p.Represents o) (wf : p.WellFormed) (closed : o.Scoped [])
    (found : p.op? id = some op) (top : op.parent = none) (used : v ∈ op.operands) :
    p.Owns none v ∨ ∃ func, p.FunctionBefore func id ∧ p.Owns (some func) v := by
  obtain ⟨region, isRegion, inside⟩ := wf.placed id op found
  rw [top] at isRegion
  cases isRegion
  obtain ⟨front, back, split⟩ := List.append_of_mem inside
  have nothing : ∀ v ∈ ([] : List ValueId), p.Sees [] v := fun v mem => by cases mem
  refine (sees_of_items rep.items nothing closed split found used).imp_right ?_
  rintro ⟨func, last, owns⟩
  exact ⟨func, ⟨front, back, split, last⟩, owns⟩

end

/-- An operation of a function uses values of that function alone, and one of the top level uses those of
the top level or of the last function before it. So all values are used where they belong if and only if
no operation of the top level uses a value of the last function before it. -/
theorem scopes_of_ofText {file text : String} {p : Program} (read : ofText file text = .ok p) :
    (∀ id op func, p.op? id = some op → op.parent = some func → ∀ v ∈ op.operands,
      p.Owns (some func) v) ∧
    (∀ id op, p.op? id = some op → op.parent = none → ∀ v ∈ op.operands,
      p.Owns none v ∨ ∃ func, p.FunctionBefore func id ∧ p.Owns (some func) v) ∧
    (p.KeepsScopes ↔ ∀ id op func, p.op? id = some op → p.FunctionBefore func id →
      ∀ v ∈ op.operands, ¬ p.Owns (some func) v) := by
  obtain ⟨o, isText⟩ := exists_isText_of_ofText read
  have wf : p.WellFormed := wellFormed_of_build isText.numbered isText.built
  have inner : ∀ id op func, p.op? id = some op → op.parent = some func → ∀ v ∈ op.operands,
      p.Owns (some func) v :=
    fun _ _ _ found inside _ => isText.represents.owns_of_parent wf isText.closed found inside
  have top : ∀ id op, p.op? id = some op → op.parent = none → ∀ v ∈ op.operands,
      p.Owns none v ∨ ∃ func, p.FunctionBefore func id ∧ p.Owns (some func) v :=
    fun _ _ found outside _ => isText.represents.sees_of_top wf isText.closed found outside
  refine ⟨inner, top, ?_, ?_⟩
  · rintro keeps id op func found ⟨front, back, split, -⟩ v used owns
    obtain ⟨here, foundHere, outside⟩ := wf.inside none p.body rfl id (by simp [split])
    rw [found] at foundHere
    cases foundHere
    have same := wf.eq_of_owns (keeps id op found v used) owns
    rw [outside] at same
    cases same
  · intro apart id op found v used
    cases parent : op.parent with
    | some func => exact inner id op func found parent v used
    | none =>
      rcases top id op found parent v used with owns | ⟨func, before, owns⟩
      · exact owns
      · exact absurd owns (apart id op func found before v used)

/-- The last operation comes after a function with values of its own, but uses one of the top level. -/
theorem scopes_of_ofText_apart :
    ∃ p, ofText "in" "func.func @f(%a: i8) \x7b%b = test.copy %a : i8\x7d
      %c = test.make : i8
      test.use %c" = .ok p ∧ p.KeepsScopes := by
  obtain ⟨p, read, uses, made⟩ : ∃ p, ofText "in" "func.func @f(%a: i8) \x7b%b = test.copy %a : i8\x7d
      %c = test.make : i8
      test.use %c" = .ok p ∧
      (∀ id ∈ p.body, (p.op? id).all fun op => op.operands = [] ∨ op.operands = [2]) ∧
      (p.op? 2).any (fun op => op.parent = none ∧ op.results = [2]) = true := by
    apply exists_of_chars
    decide +kernel
  obtain ⟨op, found, isMade⟩ := Option.any_eq_true .. |>.mp made
  obtain ⟨top, results⟩ := of_decide_eq_true isMade
  obtain ⟨o, isText⟩ := exists_isText_of_ofText read
  have wf : p.WellFormed := wellFormed_of_build isText.numbered isText.built
  have owns : p.Owns none 2 := .inl ⟨2, op, found, top, by simp [results]⟩
  refine ⟨p, read, (scopes_of_ofText read).2.2.mpr ?_⟩
  rintro id user func foundUser ⟨front, back, split, -⟩ v used inFunction
  have only := uses id (by simp [split])
  rw [foundUser, Option.all_some, decide_eq_true_eq] at only
  rcases only with nothing | second
  · simp [nothing] at used
  · have isSecond : v = 2 := by simpa [second] using used
    cases wf.eq_of_owns owns (isSecond ▸ inFunction)

/-- An operation after a function may use a value of the function. -/
theorem not_keepsScopes_after_function :
    ∃ p, ofText "in" "func.func @f(%a: i8) \x7b\x7d
      test.use %a" = .ok p ∧ ¬ p.KeepsScopes := by
  obtain ⟨p, read, isFunction, isUse⟩ : ∃ p, ofText "in" "func.func @f(%a: i8) \x7b\x7d
      test.use %a" = .ok p ∧
      (p.op? 0).any (fun op => op.args = [0]) = true ∧
      (p.op? 1).any (fun op => op.parent = none ∧ op.operands = [0]) = true := by
    apply exists_of_chars
    decide +kernel
  obtain ⟨function, foundFunction, args⟩ := Option.any_eq_true .. |>.mp isFunction
  obtain ⟨op, found, shape⟩ := Option.any_eq_true .. |>.mp isUse
  obtain ⟨top, operands⟩ := of_decide_eq_true shape
  obtain ⟨o, isText⟩ := exists_isText_of_ofText read
  have wf : p.WellFormed := wellFormed_of_build isText.numbered isText.built
  refine ⟨p, read, fun keeps => ?_⟩
  have atTop := keeps 1 op found 0 (by simp [operands])
  have inFunction : p.Owns (some 0) 0 :=
    .inr ⟨0, function, rfl, foundFunction, by simp [of_decide_eq_true args]⟩
  rw [top] at atTop
  cases wf.eq_of_owns atTop inFunction

end Program

end RngLowering
