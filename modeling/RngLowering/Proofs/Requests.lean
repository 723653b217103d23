import RngLowering.Program.Builder
import RngLowering.Proofs.WellFormed

set_option autoImplicit false

namespace RngLowering

def Op.IsLeaf (op : Op) : Prop := op.region = [] ∧ op.args = []

namespace Build

/-- The builder that a step leaves behind, whether it succeeds or fails. -/
def after {α : Type} (step : Build α) (b : Builder) : Builder :=
  match step b with
  | .ok _ next => next
  | .error _ next => next

/-- What holds of a builder's program still holds after the step. -/
def Keeps {α : Type} (holds : Program → Prop) (step : Build α) : Prop :=
  ∀ b : Builder, holds b.program → holds (step.after b).program

section

variable {α β : Type} {holds : Program → Prop}

theorem keeps_pure (a : α) : Keeps holds (pure a : Build α) := fun _ held => held

theorem keeps_get : Keeps holds (get : Build Builder) := fun _ held => held

theorem keeps_typeOf (value : ValueId) : Keeps holds (typeOf value) := by
  intro b held
  unfold after typeOf
  split
  · rename_i next step
    split at step
    · cases step
      exact held
    · cases step
  · rename_i next step
    split at step
    · cases step
    · cases step
      exact held

theorem Keeps.bind {step : Build α} {next : α → Build β} (first : Keeps holds step)
    (second : ∀ a, Keeps holds (next a)) : Keeps holds (step >>= next) := by
  intro b held
  have between := first b held
  unfold after at between ⊢
  simp only [Bind.bind, EStateM.bind]
  cases ran : step b with
  | error reason left =>
    rw [ran] at between
    exact between
  | ok a left =>
    rw [ran] at between
    exact second a left between

theorem Keeps.map {step : Build α} (kept : Keeps holds step) (f : α → β) : Keeps holds (f <$> step) :=
  kept.bind fun a => keeps_pure (f a)

end

inductive Method where
  | insert (kind : OpKind) (operands : List ValueId) (types : List Ty)
  | constant (value : Nat) (ty : IntTy)
  | addi (lhs rhs : ValueId)
  | shrui (value amount : ValueId)
  | trunci (value : ValueId) (ty : IntTy)
  | extui (value : ValueId) (ty : IntTy)
  | extsi (value : ValueId) (ty : IntTy)
  | global (sym : String) (elem : IntTy) (init : Nat) (visibility : Visibility)
  | getGlobal (sym : String) (ty : Ty)
  | load (cell : ValueId)
  | store (value cell : ValueId)
  | fromElements (elements : List ValueId) (ty : Ty)
  | cast (value : ValueId) (ty : Ty)
  | rngUpdate (delta : ValueId) (ty : Ty)
  | ret (values : List ValueId)
  | foreign (name : String) (operands : List ValueId) (types : List Ty)

/-- What a method gives back: the operation that it built, or the one result of that. -/
inductive Answer where
  | op (id : OpId)
  | result (value : ValueId)
  deriving DecidableEq

def Method.steps : Method → Build Answer
  | .insert kind operands types => .op <$> Build.insert kind operands types
  | .constant value ty => .result <$> Build.constant value ty
  | .addi lhs rhs => .result <$> Build.addi lhs rhs
  | .shrui value amount => .result <$> Build.shrui value amount
  | .trunci value ty => .result <$> Build.trunci value ty
  | .extui value ty => .result <$> Build.extui value ty
  | .extsi value ty => .result <$> Build.extsi value ty
  | .global sym elem init visibility => .op <$> Build.global sym elem init visibility
  | .getGlobal sym ty => .result <$> Build.getGlobal sym ty
  | .load cell => .result <$> Build.load cell
  | .store value cell => .op <$> Build.store value cell
  | .fromElements elements ty => .result <$> Build.fromElements elements ty
  | .cast value ty => .result <$> Build.cast value ty
  | .rngUpdate delta ty => .result <$> Build.rngUpdate delta ty
  | .ret values => .op <$> Build.ret values
  | .foreign name operands types => .op <$> Build.foreign name operands types

/-- The builder after it was asked, whether or not it could do it. -/
def Method.apply (b : Builder) (method : Method) : Builder := method.steps.after b

section

variable {holds : Program → Prop} {kind : OpKind}
  (kept : ∀ {p q : Program} {parent : Option OpId} {index : Nat} {op : Op} {types : List Ty} {id : OpId},
    holds p → op.IsLeaf → op.kind = kind → p.insert parent index op types = .ok (id, q) → holds q)

include kept

theorem keeps_insert_kind (operands : List ValueId) (types : List Ty) :
    Keeps holds (insert kind operands types) := by
  intro b held
  unfold after
  simp only [insert]
  split
  · rename_i next step
    split at step
    · rename_i done
      cases step
      exact kept held ⟨rfl, rfl⟩ rfl done
    · cases step
  · rename_i next step
    split at step
    · cases step
    · cases step
      exact held

theorem keeps_insertValue_kind (operands : List ValueId) (ty : Ty) :
    Keeps holds (insertValue kind operands ty) := by
  unfold insertValue
  refine Keeps.bind keeps_get fun b => ?_
  refine Keeps.bind (keeps_insert_kind kept operands [ty]) fun id => ?_
  exact keeps_pure b.program.values.size

end

section

variable {holds : Program → Prop}
  (kept : ∀ {p q : Program} {parent : Option OpId} {index : Nat} {op : Op} {types : List Ty} {id : OpId},
    holds p → op.IsLeaf → p.insert parent index op types = .ok (id, q) → holds q)

include kept

theorem keeps_insert (kind : OpKind) (operands : List ValueId) (types : List Ty) :
    Keeps holds (insert kind operands types) :=
  keeps_insert_kind (fun held leaf _ inserted => kept held leaf inserted) operands types

theorem keeps_insertValue (kind : OpKind) (operands : List ValueId) (ty : Ty) :
    Keeps holds (insertValue kind operands ty) :=
  keeps_insertValue_kind (fun held leaf _ inserted => kept held leaf inserted) operands ty

/-- A method inserts operations and does nothing else to the program. -/
theorem Method.keeps_steps (method : Method) : Keeps holds method.steps := by
  have op : ∀ (kind : OpKind) (operands : List ValueId) (types : List Ty),
      Keeps holds (Answer.op <$> Build.insert kind operands types) := by
    intro kind operands types
    exact (keeps_insert kept kind operands types).map _
  have value : ∀ (kind : OpKind) (operands : List ValueId) (ty : Ty),
      Keeps holds (Answer.result <$> insertValue kind operands ty) := by
    intro kind operands ty
    exact (keeps_insertValue kept kind operands ty).map _
  have typed : ∀ (like : ValueId) (kind : OpKind) (operands : List ValueId) (ty : Ty → Ty),
      Keeps holds (Answer.result <$> (typeOf like >>= fun found =>
        insertValue kind operands (ty found))) := by
    intro like kind operands ty
    exact ((keeps_typeOf like).bind fun found => keeps_insertValue kept kind operands (ty found)).map _
  cases method with
  | insert kind operands types => exact op _ _ _
  | constant bits ty => exact value _ _ _
  | addi lhs rhs => exact typed lhs _ _ id
  | shrui shifted amount => exact typed shifted _ _ id
  | trunci source ty => exact value _ _ _
  | extui source ty => exact value _ _ _
  | extsi source ty => exact value _ _ _
  | global sym elem init visibility => exact op _ _ _
  | getGlobal sym ty => exact value _ _ _
  | load cell => exact typed cell _ _ (fun found => .int found.elem)
  | store stored cell => exact op _ _ _
  | fromElements elements ty => exact value _ _ _
  | cast source ty => exact value _ _ _
  | rngUpdate delta ty => exact value _ _ _
  | ret values => exact op _ _ _
  | foreign name operands types => exact op _ _ _

theorem Method.holds_foldl (methods : List Method) {b : Builder} (held : holds b.program) :
    holds (methods.foldl Method.apply b).program := by
  induction methods generalizing b with
  | nil => exact held
  | cons method rest ih => exact ih (method.keeps_steps kept b held)

end

end Build

/-- A call that may change a program. What is inserted comes without operations in it. -/
inductive Request where
  | insert (parent : Option OpId) (index : Nat) (op : Op) (empty : op.region = []) (types : List Ty)
  | push (parent : Option OpId) (op : Op) (empty : op.region = []) (types : List Ty)
  | addFunction (sym : String) (types : List Ty) (loc : Option Loc)
  | erase (id : OpId)
  | replace (id : OpId) (values : List ValueId)
  | replaceUses (old new : ValueId)
  | setKind (id : OpId) (kind : OpKind)
  /-- What one builder is asked for, from a point on. -/
  | build (parent : Option OpId) (index : Nat) (loc : Option Loc) (methods : List Build.Method)

namespace Request

def apply (p : Program) : Request → Program
  | .insert parent index op _ types => ((p.insert parent index op types).map (·.2)).toOption.getD p
  | .push parent op _ types => ((p.push parent op types).map (·.2)).toOption.getD p
  | .addFunction sym types loc => (p.addFunction sym types loc).2.2
  | .erase id => ((p.erase id).map (·.2)).toOption.getD p
  | .replace id values => (p.replace id values).toOption.getD p
  | .replaceUses old new => p.replaceUses old new
  | .setKind id kind => p.setKind id kind
  | .build parent index loc methods =>
    (methods.foldl Build.Method.apply { program := p, parent, index, loc }).program

/-- The program that calls lead to from an empty one. -/
def reach (name : String) (requests : List Request) : Program :=
  requests.foldl apply { name }

/-- The parameters that an operation brings with it. -/
def broughtArgs : Request → List ValueId
  | .insert _ _ op _ _ => op.args
  | .push _ op _ _ => op.args
  | _ => []

/-- A property of programs that edits keep, where operations are inserted with parameters that are
allowed. -/
structure Kept (holds : Program → Prop) (allowed : List ValueId → Prop) : Prop where
  insert : ∀ {p q : Program} {parent : Option OpId} {index : Nat} {op : Op} {types : List Ty}
    {id : OpId}, holds p → op.region = [] → allowed op.args →
    p.insert parent index op types = .ok (id, q) → holds q
  addFunction : ∀ {p : Program} (sym : String) (types : List Ty) (loc : Option Loc), holds p →
    holds (p.addFunction sym types loc).2.2
  erase : ∀ {p q : Program} {id : OpId} {op : Op}, holds p → p.erase id = .ok (op, q) → holds q
  replaceUses : ∀ {p : Program} (old new : ValueId), holds p → holds (p.replaceUses old new)
  setKind : ∀ {p : Program} (id : OpId) (kind : OpKind), holds p → holds (p.setKind id kind)
  none : allowed []

theorem kept_forest : Kept Program.Forest fun _ => True where
  insert forest empty _ inserted := forest.insert empty inserted
  addFunction sym types loc forest := forest.addFunction sym types loc
  erase forest erased := forest.erase erased
  replaceUses old new forest := forest.replaceUses old new
  setKind id kind forest := forest.setKind id kind
  none := trivial

theorem kept_wellFormed : Kept Program.WellFormed fun args => args = [] where
  insert wf empty noArgs inserted := wf.insert empty noArgs inserted
  addFunction sym types loc wf := wf.addFunction sym types loc
  erase wf erased := wf.erase erased
  replaceUses old new wf := wf.replaceUses old new
  setKind id kind wf := wf.setKind id kind
  none := rfl

section

variable {holds : Program → Prop} {allowed : List ValueId → Prop}

/-- Where an edit may fail, the program is the edited one or the one before. -/
theorem holds_getD {p : Program} (held : holds p) {outcome : Except IrError Program}
    (edited : ∀ q, outcome = .ok q → holds q) : holds (outcome.toOption.getD p) := by
  cases same : outcome with
  | error reason => exact held
  | ok q => exact edited q same

theorem Kept.apply (kept : Kept holds allowed) {p : Program} (held : holds p) {request : Request}
    (brought : allowed request.broughtArgs) : holds (request.apply p) := by
  cases request with
  | insert parent index op empty types =>
    apply holds_getD held
    intro q done
    obtain ⟨⟨id, grown⟩, inserted, rfl⟩ := map_eq_ok.mp done
    exact kept.insert held empty brought inserted
  | push parent op empty types =>
    apply holds_getD held
    intro q done
    obtain ⟨⟨id, grown⟩, pushed, rfl⟩ := map_eq_ok.mp done
    obtain ⟨index, inserted⟩ := Program.insert_of_push pushed
    exact kept.insert held empty brought inserted
  | addFunction sym types loc => exact kept.addFunction sym types loc held
  | erase id =>
    apply holds_getD held
    intro q done
    obtain ⟨⟨op, left⟩, erased, rfl⟩ := map_eq_ok.mp done
    exact kept.erase held erased
  | replace id values =>
    apply holds_getD held
    intro q done
    obtain ⟨pairs, op, erased⟩ := Program.erase_of_replace done
    exact kept.erase (Program.holds_rewire (fun _ old new => kept.replaceUses old new) held pairs) erased
  | replaceUses old new => exact kept.replaceUses old new held
  | setKind id kind => exact kept.setKind id kind held
  | build parent index loc methods =>
    apply Build.Method.holds_foldl
    · intro p q parent index op types id held leaf inserted
      exact kept.insert held leaf.1 (leaf.2 ▸ kept.none) inserted
    · exact held

theorem Kept.foldl (kept : Kept holds allowed) {p : Program} (held : holds p)
    {requests : List Request} (brought : ∀ request ∈ requests, allowed request.broughtArgs) :
    holds (requests.foldl Request.apply p) := by
  induction requests generalizing p with
  | nil => exact held
  | cons request rest ih =>
    rw [List.forall_mem_cons] at brought
    exact ih (kept.apply held brought.1) brought.2

end

end Request

namespace Program

theorem forest_reach (name : String) (requests : List Request) :
    (Request.reach name requests).Forest :=
  Request.kept_forest.foldl (wellFormed_empty name).toForest fun _ _ => trivial

theorem wellFormed_reach (name : String) (requests : List Request)
    (noArgs : requests.flatMap Request.broughtArgs = []) :
    (Request.reach name requests).WellFormed :=
  Request.kept_wellFormed.foldl (wellFormed_empty name) (List.flatMap_eq_nil_iff.mp noArgs)

end Program

/-- Whatever the calls, a region holds live operations; a live operation is once in the region of its
parent, which came before it, and in no other region; its results have their entries in the table of
values; and a walk lists the live operations, each once. Where no operation was inserted with parameters,
parameters have their entries too. -/
theorem Request.operations_form_forest (name : String) (requests : List Request) :
    let p := Request.reach name requests
    (∀ parent region, p.region parent = .ok region → ∀ id ∈ region, p.isLive id = true) ∧
    (∀ id op, p.op? id = some op →
      (∃ region, p.region op.parent = .ok region) ∧
      (∀ parent region, p.region parent = .ok region →
        region.count id = if parent = op.parent then 1 else 0) ∧
      (∀ parent, op.parent = some parent → parent < id) ∧
      (∀ index value, op.results[index]? = some value →
        ∃ ty, p.value? value = some ⟨ty, .result id index⟩) ∧
      (requests.flatMap Request.broughtArgs = [] → ∀ index value, op.args[index]? = some value →
        ∃ ty, p.value? value = some ⟨ty, .arg id index⟩)) ∧
    (∀ id, id ∈ p.walk ↔ p.isLive id = true) ∧ p.walk.Nodup ∧ p.walk.length = p.numOps := by
  intro p
  have forest : p.Forest := Program.forest_reach name requests
  refine ⟨?_, ?_, fun id => forest.mem_walk_iff, forest.nodup_walk, forest.length_walk⟩
  · intro parent region held id mem
    obtain ⟨op, found, -⟩ := forest.inside parent region held id mem
    exact Program.isLive_iff.mpr ⟨op, found⟩
  · intro id op found
    refine ⟨forest.exists_region found, ?_, fun parent => forest.older id op parent found,
      forest.results id op found, ?_⟩
    · intro parent other held
      exact forest.count_eq found held
    · intro noArgs
      exact (Program.wellFormed_reach name requests noArgs).args id op found

/-- A function is erased, and what the erasure gives back, an operation without others in it, is put in
again. It is live under a new id, and its parameter still has the entry of the dead function. -/
theorem Request.arg_of_erased_function :
    let byte : Ty := .int ⟨8, .signless⟩
    let function : Op := { kind := .func "f", args := [0] }
    let before := Request.reach "in" [.addFunction "f" [byte] none]
    let p := Request.reach "in" [.addFunction "f" [byte] none, .erase 0, .push none function rfl []]
    (∃ q, before.erase 0 = .ok (function, q)) ∧ p.op? 1 = some function ∧ p.isLive 0 = false ∧
      p.value? 0 = some ⟨byte, .arg 0 0⟩ ∧ ¬ ∃ ty, p.value? 0 = some ⟨ty, .arg 1 0⟩ := by
  intro byte function before p
  have entry : p.value? 0 = some ⟨byte, .arg 0 0⟩ := rfl
  refine ⟨⟨_, rfl⟩, rfl, rfl, entry, ?_⟩
  rintro ⟨ty, other⟩
  rw [entry] at other
  cases other

end RngLowering
