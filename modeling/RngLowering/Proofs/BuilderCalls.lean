import RngLowering.Proofs.Exchange
import RngLowering.Proofs.Requests

set_option autoImplicit false

namespace RngLowering

namespace Build

/-- The answer speaks of the operation at `id`, which has the given results. -/
def Answer.Names (id : OpId) (results : List ValueId) : Answer → Prop
  | .op same => same = id
  | .result value => results = [value]

/-- Where the types of an operation's results come from. -/
inductive Typing where
  | known (types : List Ty)
  /-- One result, with a type that is made from that of a value. -/
  | like (value : ValueId) (ty : Ty → Ty)

def Typing.types (p : Program) : Typing → Except IrError (List Ty)
  | .known types => .ok types
  | .like value ty => (p.typeOf value).map fun found => [ty found]

structure Order where
  kind : OpKind
  operands : List ValueId
  typing : Typing

def Method.order : Method → Order
  | .insert kind operands types => ⟨kind, operands, .known types⟩
  | .constant value ty => ⟨.constant (truncate ty.bits value), [], .known [.int ty]⟩
  | .addi lhs rhs => ⟨.addi, [lhs, rhs], .like lhs id⟩
  | .shrui value amount => ⟨.shrui, [value, amount], .like value id⟩
  | .trunci value ty => ⟨.trunci, [value], .known [.int ty]⟩
  | .extui value ty => ⟨.extui, [value], .known [.int ty]⟩
  | .extsi value ty => ⟨.extsi, [value], .known [.int ty]⟩
  | .global sym elem init visibility =>
    ⟨.global ⟨sym, .memref elem, truncate elem.bits init, visibility, false⟩, [], .known []⟩
  | .getGlobal sym ty => ⟨.getGlobal sym, [], .known [ty]⟩
  | .load cell => ⟨.load, [cell], .like cell (.int ·.elem)⟩
  | .store value cell => ⟨.store, [value, cell], .known []⟩
  | .fromElements elements ty => ⟨.fromElements, elements, .known [ty]⟩
  | .cast value ty => ⟨.cast, [value], .known [ty]⟩
  | .rngUpdate delta ty => ⟨.rngUpdate, [delta], .known [ty]⟩
  | .ret values => ⟨.ret, values, .known []⟩
  | .foreign name operands types => ⟨.bare name, operands, .known types⟩

theorem Typing.types_eq_error {p : Program} {typing : Typing} {reason : IrError} :
    typing.types p = .error reason ↔
      ∃ value ty, typing = .like value ty ∧ p.value? value = none ∧ reason = .unknownValue value := by
  cases typing with
  | known given => simp [Typing.types]
  | like value ty =>
    cases entry : p.value? value with
    | none => simp [Typing.types, Program.typeOf, entry, Except.map, eq_comm]
    | some info => simp [Typing.types, Program.typeOf, entry, Except.map]

/-- What types there are for an operation, there are when the table of values has grown. -/
theorem Typing.types_of_kept {p q : Program} {typing : Typing} {types : List Ty}
    (kept : ∀ value info, p.value? value = some info → q.value? value = some info)
    (typed : typing.types p = .ok types) : typing.types q = .ok types := by
  cases typing with
  | known given => exact typed
  | like value ty =>
    obtain ⟨found, here, rfl⟩ := map_eq_ok.mp typed
    exact map_eq_ok.mpr ⟨found, Program.typeOf_of_kept (kept value) here, rfl⟩

def Order.fill (order : Order) (types : List Ty) (b : Builder) : Builder :=
  b.put [b.program.nextStmt order.kind order.operands types]

section

variable (order : Order) (types : List Ty) (b : Builder)

theorem Order.program_fill : (order.fill types b).program = b.program.inserted b.parent b.index
    { kind := order.kind, operands := order.operands, loc := b.loc } types := by
  simp only [fill, Builder.put, Program.place, Program.types_nextStmt]
  rfl

@[simp] theorem Order.index_fill : (order.fill types b).index = b.index + 1 := rfl

@[simp] theorem Order.created_fill :
    (order.fill types b).created = b.created ++ [b.program.ops.size] := rfl

end

/-- The steps build what is ordered, or do nothing where there are no types for it. -/
structure Order.FilledBy (order : Order) (steps : Build Answer) (b : Builder) : Prop where
  failed : ∀ reason, order.typing.types b.program = .error reason → steps b = .error reason b
  built : ∀ types, order.typing.types b.program = .ok types →
    ∃ answer, steps b = .ok answer (order.fill types b) ∧
      answer.Names b.program.ops.size (b.program.nextValues types.length)

section

variable {b : Builder} (held : ∃ region, b.program.region b.parent = .ok region)

include held

theorem filledBy_insert (kind : OpKind) (operands : List ValueId) (types : List Ty) :
    Order.FilledBy ⟨kind, operands, .known types⟩ (.op <$> insert kind operands types) b where
  failed _ untyped := by cases untyped
  built given typed := by
    cases typed
    have inserted := insert_eq ⟨held, rfl⟩ (b.program.nextStmt kind operands types)
    rw [Program.types_nextStmt] at inserted
    refine ⟨.op b.program.ops.size, ?_, rfl⟩
    exact bind_of_ok inserted

theorem filledBy_insertValue (kind : OpKind) (operands : List ValueId) (ty : Ty) :
    Order.FilledBy ⟨kind, operands, .known [ty]⟩ (.result <$> insertValue kind operands ty) b where
  failed _ untyped := by cases untyped
  built given typed := by
    cases typed
    have inserted := insertValue_eq ⟨held, rfl⟩ kind operands ty
    exact ⟨.result b.program.values.size, bind_of_ok inserted, rfl⟩

theorem filledBy_typed (value : ValueId) (kind : OpKind) (operands : List ValueId) (ty : Ty → Ty) :
    Order.FilledBy ⟨kind, operands, .like value ty⟩
      (.result <$> (typeOf value >>= fun found => insertValue kind operands (ty found))) b := by
  cases typed : b.program.typeOf value with
  | error reason =>
    have failed : typeOf value b = .error reason b := by simp only [typeOf, typed]
    have untyped : Typing.types b.program (.like value ty) = .error reason := by
      simp [Typing.types, typed, Except.map]
    constructor
    · intro other same
      rw [untyped] at same
      cases same
      exact bind_of_error (bind_of_error failed)
    · intro types same
      rw [untyped] at same
      cases same
  | ok found =>
    -- with the type found, it is a method whose type is known
    have known : Typing.types b.program (.like value ty) = .ok [ty found] := by
      simp [Typing.types, typed, Except.map]
    have filled := filledBy_insertValue held kind operands (ty found)
    have same : (typeOf value >>= fun found => insertValue kind operands (ty found)) b =
        insertValue kind operands (ty found) b := bind_of_ok (typeOf_eq typed)
    constructor
    · intro reason untyped
      rw [known] at untyped
      cases untyped
    · intro types given
      rw [known] at given
      cases given
      obtain ⟨answer, built, names⟩ := filled.built [ty found] rfl
      refine ⟨answer, ?_, names⟩
      simp only [Functor.map, EStateM.map, same] at built ⊢
      exact built

/-- Every method builds what it asks for. -/
theorem Method.filledBy (method : Method) : method.order.FilledBy method.steps b := by
  cases method with
  | insert kind operands types => exact filledBy_insert held _ _ _
  | constant value ty => exact filledBy_insertValue held _ _ _
  | addi lhs rhs => exact filledBy_typed held lhs _ _ id
  | shrui value amount => exact filledBy_typed held value _ _ id
  | trunci value ty => exact filledBy_insertValue held _ _ _
  | extui value ty => exact filledBy_insertValue held _ _ _
  | extsi value ty => exact filledBy_insertValue held _ _ _
  | global sym elem init visibility => exact filledBy_insert held _ _ _
  | getGlobal sym ty => exact filledBy_insertValue held _ _ _
  | load cell => exact filledBy_typed held cell _ _ (.int ·.elem)
  | store value cell => exact filledBy_insert held _ _ _
  | fromElements elements ty => exact filledBy_insertValue held _ _ _
  | cast value ty => exact filledBy_insertValue held _ _ _
  | rngUpdate delta ty => exact filledBy_insertValue held _ _ _
  | ret values => exact filledBy_insert held _ _ _
  | foreign name operands types => exact filledBy_insert held _ _ _

end

end Build

namespace Builder

inductive Start where
  | atEnd (parent : Option OpId)
  | before (anchor : OpId)
  | atStart

def Start.builder (p : Program) : Start → Except IrError Builder
  | .atEnd parent => Builder.atEnd p parent
  | .before anchor => Builder.before p anchor
  | .atStart => .ok (Builder.atStart p)

def Start.IsLive (p : Program) : Start → Prop
  | .atEnd parent => ∀ id, parent = some id → p.isLive id = true
  | .before anchor => p.isLive anchor = true
  | .atStart => True

/-- The point is in the region of an operation or in the body, between `front` and `back`. -/
inductive Start.Splits (p : Program) : Start → Option OpId → List OpId → List OpId → Prop
  | atEnd {parent : Option OpId} {region : List OpId} (held : p.region parent = .ok region) :
    Splits p (.atEnd parent) parent region []
  | before {anchor : OpId} {op : Op} {front rest : List OpId} (found : p.op? anchor = some op)
    (held : p.region op.parent = .ok (front ++ anchor :: rest)) :
    Splits p (.before anchor) op.parent front (anchor :: rest)
  | atStart : Splits p .atStart none [] p.body

/-- What is done with a builder, short of other changes to its program. -/
inductive Call where
  | ask (method : Build.Method)
  | withLoc (loc : Option Loc)

def Call.apply (b : Builder) : Call → Builder
  | .ask method => method.apply b
  | .withLoc loc => b.withLoc loc

def perform (b : Builder) (calls : List Call) : Builder := calls.foldl Call.apply b

/-- A call that succeeded, with the location of the builder and the answer. -/
structure Entry where
  method : Build.Method
  loc : Option Loc
  answer : Build.Answer

def Call.entries (b : Builder) : Call → List Entry
  | .ask method =>
    match method.steps b with
    | .ok answer _ => [⟨method, b.loc, answer⟩]
    | .error _ _ => []
  | .withLoc _ => []

/-- The calls that succeed, in order. -/
def log (b : Builder) : List Call → List Entry
  | [] => []
  | call :: rest => call.entries b ++ (call.apply b).log rest

/-- The operation at `id` is the one that was asked for, its results have the types that were asked for,
and the answer speaks of it. -/
def Stands (p : Program) (parent : Option OpId) (id : OpId) (entry : Entry) : Prop :=
  ∃ results types, p.op? id = some
      { kind := entry.method.order.kind, operands := entry.method.order.operands, results, parent,
        loc := entry.loc } ∧
    entry.method.order.typing.types p = .ok types ∧
    List.Forall₂ (fun value ty => p.typeOf value = .ok ty) results types ∧
    entry.answer.Names id results

/-- What is built on `p` stands in a row between `front` and `back`, and all else is as in `p`. -/
structure Spliced (p : Program) (owner : Option OpId) (front back : List OpId)
    (entries : List Entry) (b : Builder) : Prop where
  wellFormed : b.program.WellFormed
  name : b.program.name = p.name
  parent : b.parent = owner
  /-- The point is right after what was built. -/
  index : b.index = (front ++ b.created).length
  region : b.program.region owner = .ok (front ++ b.created ++ back)
  created : b.created = List.range' p.ops.size entries.length
  size : b.program.ops.size = p.ops.size + entries.length
  /-- What was built is in the order of the calls. -/
  stands : List.Forall₂ (Stands b.program owner) b.created entries
  regions : ∀ other, other ≠ owner → (∀ id ∈ b.created, other ≠ some id) →
    b.program.region other = p.region other
  ops : ∀ id, id ∉ b.created → b.program.op? id = (p.op? id).map fun op =>
    if owner = some id then { op with region := front ++ b.created ++ back } else op
  values : ∀ value info, p.value? value = some info → b.program.value? value = some info

theorem Start.Splits.region {p : Program} {start : Start} {parent : Option OpId}
    {front back : List OpId} (splits : start.Splits p parent front back) :
    p.region parent = .ok (front ++ back) := by
  cases splits with
  | atEnd held => rwa [List.append_nil]
  | before found held => exact held
  | atStart => rfl

section

variable {p : Program} {start : Start} {b : Builder}

/-- A builder can be set up where what it refers to is live. -/
theorem exists_builder_iff (wf : p.WellFormed) (start : Start) :
    (∃ b, start.builder p = .ok b) ↔ start.IsLive p := by
  cases start with
  | atEnd parent =>
    cases parent with
    | none => simp [Start.builder, atEnd, Program.region, Start.IsLive]
    | some id =>
      cases found : p.op? id <;>
        simp [Start.builder, atEnd, Program.region, found, Start.IsLive, Program.isLive]
  | before anchor =>
    cases found : p.op? anchor with
    | none => simp [Start.builder, before, Program.position?, found, Start.IsLive, Program.isLive]
    | some op =>
      obtain ⟨front, back, -, position⟩ := wf.exists_position found
      simp [Start.builder, before, position, Start.IsLive, Program.isLive, found]
  | atStart => simp [Start.builder, Start.IsLive]

/-- A new builder is at its point, and has built nothing. -/
theorem exists_splits (wf : p.WellFormed) (made : start.builder p = .ok b) :
    ∃ front back, start.Splits p b.parent front back ∧
      b = { program := p, parent := b.parent, index := front.length, loc := b.loc } := by
  cases start with
  | atEnd parent =>
    cases held : p.region parent with
    | error reason => simp [Start.builder, atEnd, held] at made
    | ok region =>
      simp only [Start.builder, atEnd, held, Except.ok.injEq] at made
      subst made
      exact ⟨region, [], .atEnd held, rfl⟩
  | before anchor =>
    cases found : p.op? anchor with
    | none => simp [Start.builder, before, Program.position?, found] at made
    | some op =>
      obtain ⟨front, back, held, position⟩ := wf.exists_position found
      simp only [Start.builder, before, position, Except.ok.injEq] at made
      subst made
      exact ⟨front, anchor :: back, .before found held, rfl⟩
  | atStart =>
    cases made
    exact ⟨[], p.body, .atStart, rfl⟩

variable {owner : Option OpId} {front back : List OpId} {entries : List Entry}

theorem spliced_nil (wf : p.WellFormed) (held : p.region owner = .ok (front ++ back))
    (loc : Option Loc) :
    Spliced p owner front back []
      { program := p, parent := owner, index := front.length, loc := loc } where
  wellFormed := wf
  name := rfl
  parent := rfl
  index := by rw [List.append_nil]
  region := by rwa [List.append_nil]
  created := rfl
  size := rfl
  stands := .nil
  regions _ _ _ := rfl
  ops := by
    intro id _
    cases found : p.op? id with
    | none => rfl
    | some op =>
      rw [Option.map_some, List.append_nil]
      split
      · rename_i same
        rw [same, Program.region_of_op? found] at held
        rw [← Except.ok.inj held]
      · rfl
  values _ _ entry := entry

namespace Spliced

theorem withLoc (spliced : Spliced p owner front back entries b) (loc : Option Loc) :
    Spliced p owner front back entries (b.withLoc loc) :=
  { spliced with }

/-- The builder can build, wherever it has got to. -/
theorem exists_region (spliced : Spliced p owner front back entries b) :
    ∃ region, b.program.region b.parent = .ok region :=
  ⟨_, spliced.parent ▸ spliced.region⟩

/-- What is put at the point follows what was built before. -/
theorem insertAt_point (created : List OpId) (id : OpId) :
    Program.insertAt (front ++ created ++ back) (front ++ created).length id =
      front ++ (created ++ [id]) ++ back := by
  rw [Program.insertAt_append, List.append_assoc front]

variable (spliced : Spliced p owner front back entries b) (order : Build.Order) (types : List Ty)

include spliced

theorem program_fill : (order.fill types b).program =
    b.program.inserted owner (front ++ b.created).length
      { kind := order.kind, operands := order.operands, loc := b.loc } types := by
  rw [order.program_fill, spliced.parent, spliced.index]

theorem region_fill : (order.fill types b).program.region owner =
    .ok (front ++ (b.created ++ [b.program.ops.size]) ++ back) := by
  rw [spliced.program_fill, Program.region_inserted spliced.region,
    if_neg (Program.ne_of_region spliced.region), if_pos rfl, insertAt_point]

theorem regions_fill {other : Option OpId} (apart : other ≠ owner)
    (old : ∀ id ∈ b.created ++ [b.program.ops.size], other ≠ some id) :
    (order.fill types b).program.region other = p.region other := by
  have before : ∀ id ∈ b.created, other ≠ some id := fun id mem =>
    old id (List.mem_append_left _ mem)
  have notNew : other ≠ some b.program.ops.size := old _ (by simp)
  rw [spliced.program_fill, Program.region_inserted spliced.region, if_neg notNew, if_neg apart,
    spliced.regions other apart before]

theorem ops_fill {id : OpId} (old : id ∉ b.created ++ [b.program.ops.size]) :
    (order.fill types b).program.op? id = (p.op? id).map fun op =>
      if owner = some id then
        { op with region := front ++ (b.created ++ [b.program.ops.size]) ++ back }
      else op := by
  obtain ⟨before, notNew⟩ : id ∉ b.created ∧ id ≠ b.program.ops.size := by simpa using old
  rw [spliced.program_fill, Program.op?_inserted_of_ne notNew, spliced.ops id before]
  by_cases same : owner = some id
  · simp only [if_pos same, Option.map_map, Function.comp_def, insertAt_point]
  · simp only [if_neg same]

theorem values_fill {value : ValueId} {info : ValueInfo} (entry : b.program.value? value = some info) :
    (order.fill types b).program.value? value = some info := by
  rw [spliced.program_fill, Program.inserted, ← Program.grow]
  exact Program.value?_grow_old entry

/-- The operation that is built is the one that was asked for. -/
theorem stands_new {entry : Entry} {types : List Ty} (loc : entry.loc = b.loc)
    (typed : entry.method.order.typing.types b.program = .ok types)
    (names : entry.answer.Names b.program.ops.size (b.program.nextValues types.length)) :
    Stands (entry.method.order.fill types b).program owner b.program.ops.size entry := by
  refine ⟨b.program.nextValues types.length, types, ?_, ?_, ?_, names⟩
  · rw [spliced.program_fill, Program.inserted, Program.op?_modifyRegion,
      if_neg (Program.ne_of_region spliced.region), Program.op?_append, if_pos rfl, loc]
  · exact Build.Typing.types_of_kept (fun _ _ => spliced.values_fill _ types) typed
  · rw [spliced.program_fill, List.forall₂_iff_zip]
    refine ⟨List.length_range', fun mem => ?_⟩
    exact Program.types_inserted _ _ _ entry.method.order.kind entry.method.order.operands types _ _ mem

variable (held : p.region owner = .ok (front ++ back))

include held

/-- What is built is not what it is built in. -/
theorem ne_owner {id : OpId} (mem : id ∈ b.created) : owner ≠ some id := by
  rintro rfl
  obtain ⟨op, found, -⟩ := Program.op?_of_region held
  rw [spliced.created, List.mem_range'_1] at mem
  exact Nat.not_lt_of_le mem.1 (Program.op?_lt found)

/-- What stands stays when more is built. -/
theorem stands_fill : List.Forall₂ (Stands (order.fill types b).program owner) b.created entries := by
  apply Program.forall₂_imp_of_mem spliced.stands
  rintro id entry mem ⟨results, given, found, typed, resultTypes, names⟩
  have kept : ∀ value info, b.program.value? value = some info →
      (order.fill types b).program.value? value = some info := fun _ _ => spliced.values_fill order types
  refine ⟨results, given, ?_, Build.Typing.types_of_kept kept typed,
    resultTypes.imp fun value _ => Program.typeOf_of_kept (kept value), names⟩
  rw [spliced.program_fill, Program.op?_inserted_of_ne (Nat.ne_of_lt (Program.op?_lt found)),
    if_neg (spliced.ne_owner held mem)]
  exact found

/-- A builder at its point builds the next operation there. -/
theorem fill {entry : Entry} {types : List Ty} (loc : entry.loc = b.loc)
    (typed : entry.method.order.typing.types b.program = .ok types)
    (names : entry.answer.Names b.program.ops.size (b.program.nextValues types.length)) :
    Spliced p owner front back (entries ++ [entry]) (entry.method.order.fill types b) where
  wellFormed := by
    rw [spliced.program_fill]
    exact spliced.wellFormed.inserted spliced.region rfl rfl _ types
  name := by
    rw [spliced.program_fill, Program.inserted, Program.name_modifyRegion]
    exact spliced.name
  parent := spliced.parent
  index := by
    rw [Build.Order.index_fill, Build.Order.created_fill, spliced.index]
    simp only [List.length_append, List.length_singleton, Nat.add_assoc]
  region := spliced.region_fill _ types
  created := by
    rw [Build.Order.created_fill, spliced.created, spliced.size, List.length_append]
    exact List.range'_1_concat.symm
  size := by
    rw [spliced.program_fill, Program.size_ops_inserted, spliced.size, List.length_append]
    rfl
  stands := List.rel_append (spliced.stands_fill _ types held)
    (.cons (spliced.stands_new loc typed names) .nil)
  regions _ apart old := spliced.regions_fill _ types apart old
  ops _ old := spliced.ops_fill _ types old
  values value info entry := spliced.values_fill _ types (spliced.values value info entry)

/-- One call adds what it makes, if it succeeds. -/
theorem apply (call : Call) : Spliced p owner front back (entries ++ call.entries b) (call.apply b) := by
  cases call with
  | withLoc loc =>
    rw [Call.entries, List.append_nil]
    exact spliced.withLoc loc
  | ask method =>
    have filled := method.filledBy spliced.exists_region
    rw [Call.apply, Build.Method.apply, Build.after, Call.entries]
    cases typed : method.order.typing.types b.program with
    | error reason =>
      rw [filled.failed reason typed, List.append_nil]
      exact spliced
    | ok types =>
      obtain ⟨answer, built, names⟩ := filled.built types typed
      rw [built]
      exact spliced.fill held rfl typed names

/-- So do calls one after another. -/
theorem perform (calls : List Call) :
    Spliced p owner front back (entries ++ b.log calls) (b.perform calls) := by
  -- the calls so far are in `entries`, so that the induction can go on from any builder on the way
  induction calls generalizing b entries with
  | nil =>
    rw [log, List.append_nil]
    exact spliced
  | cons call rest ih =>
    rw [log, ← List.append_assoc]
    exact ih (spliced.apply held call)

end Spliced

end

/-- A method fails where it needs the type of a value that is not there, and then changes nothing. -/
theorem steps_eq_error_iff {b left : Builder} {method : Build.Method} {reason : IrError}
    (held : ∃ region, b.program.region b.parent = .ok region) :
    method.steps b = .error reason left ↔ left = b ∧ ∃ value ty,
      method.order.typing = .like value ty ∧ b.program.value? value = none ∧
        reason = .unknownValue value := by
  have filled := method.filledBy held
  rw [← Build.Typing.types_eq_error]
  cases typed : method.order.typing.types b.program with
  | error other =>
    rw [filled.failed other typed]
    simp [and_comm, eq_comm]
  | ok types =>
    obtain ⟨answer, built, -⟩ := filled.built types typed
    simp [built]

/-- A builder can be set up wherever what its point refers to is live. After any calls, those that failed
among them, the region of its parent is what was before the point, what was built, in the order of the
calls, and what was after the point; all else is as it was. A call fails only where it needs the type of
a value that is not there, and leaves the builder and its program as they were. -/
theorem calls_splice {p : Program} (wf : p.WellFormed) (start : Start) :
    ((∃ b, start.builder p = .ok b) ↔ start.IsLive p) ∧
    ∀ b, start.builder p = .ok b → ∃ front back, start.Splits p b.parent front back ∧
      ∀ calls, Spliced p b.parent front back (b.log calls) (b.perform calls) ∧
        ∀ method reason left, Build.Method.steps method (b.perform calls) = .error reason left ↔
          left = b.perform calls ∧ ∃ value ty, method.order.typing = .like value ty ∧
            (b.perform calls).program.value? value = none ∧ reason = .unknownValue value := by
  refine ⟨exists_builder_iff wf start, ?_⟩
  intro b made
  obtain ⟨front, back, splits, new⟩ := exists_splits wf made
  refine ⟨front, back, splits, ?_⟩
  intro calls
  have first : Spliced p b.parent front back [] b := by
    rw [new]
    exact spliced_nil wf splits.region b.loc
  have spliced := first.perform splits.region calls
  exact ⟨spliced, fun _ _ _ => steps_eq_error_iff spliced.exists_region⟩

/-- Three operations are built before the end of a function, the last one from the other two. Between
them a sum and a load fail, and the location changes. -/
theorem calls_splice_before_return :
    let wide : IntTy := ⟨128, .signless⟩
    let p := Request.reach "in" [.addFunction "f" [.int ⟨64, .signless⟩] none,
      .push (some 0) { kind := .bare "test.first" } rfl [],
      .push (some 0) { kind := .ret, operands := [0] } rfl []]
    let calls : List Call := [.ask (.extui 0 wide), .ask (.addi 9 0), .withLoc (some ⟨"in", 3, 1⟩),
      .ask (.constant 1 wide), .ask (.load 9), .ask (.addi 1 2)]
    p.WellFormed ∧ ∃ b front back, Start.builder p (.before 2) = .ok b ∧
      Start.Splits p (.before 2) b.parent front back ∧
      Spliced p b.parent front back (b.log calls) (b.perform calls) ∧
      (b.perform calls).created = [3, 4, 5] ∧
      ((b.perform calls).program.region (some 0)).toOption = some [1, 3, 4, 5, 2] ∧
      Build.Method.steps (.addi 9 0) (b.perform calls) =
        .error (.unknownValue 9) (b.perform calls) := by
  intro wide p calls
  have wf : p.WellFormed := Program.wellFormed_reach _ _ rfl
  let b : Builder := { program := p, parent := some 0, index := 1 }
  have made : Start.builder p (.before 2) = .ok b := by rfl
  obtain ⟨front, back, splits, after⟩ := (calls_splice wf (.before 2)).2 b made
  obtain ⟨spliced, fails⟩ := after calls
  exact ⟨wf, b, front, back, made, splits, spliced, by decide +kernel, by decide +kernel,
    (fails _ _ _).mpr ⟨rfl, 9, id, rfl, by decide +kernel, rfl⟩⟩

end Builder

end RngLowering
