import RngLowering.Conversion.Stock
import RngLowering.Proofs.Requests

set_option autoImplicit false

namespace RngLowering

namespace Program

variable {p q : Program} {id : OpId} {op : Op} {values : List ValueId}

theorem size_ops_erase (done : p.erase id = .ok (op, q)) : q.ops.size = p.ops.size := by
  obtain ⟨-, rfl⟩ := eq_without_of_erase done
  rw [without, size_ops_clear, size_ops_modifyRegion]

theorem size_ops_rewire (p : Program) (pairs : List (ValueId × ValueId)) :
    (pairs.foldl (fun p (old, new) => p.replaceUses old new) p).ops.size = p.ops.size := by
  induction pairs generalizing p with
  | nil => rfl
  | cons pair rest ih => exact (ih _).trans (size_ops_replaceUses p pair.1 pair.2)

theorem size_ops_replace (done : p.replace id values = .ok q) : q.ops.size = p.ops.size := by
  obtain ⟨pairs, op, erased⟩ := erase_of_replace done
  rw [size_ops_erase erased, size_ops_rewire]

theorem WellFormed.op?_erase_self (wf : p.WellFormed) (done : p.erase id = .ok (op, q)) :
    q.op? id = none := by
  obtain ⟨found, rfl⟩ := eq_without_of_erase done
  rw [op?_without, if_pos ((wf.mem_subtree found).mpr .refl)]

theorem WellFormed.op?_replace_self (wf : p.WellFormed) (done : p.replace id values = .ok q) :
    q.op? id = none := by
  obtain ⟨pairs, op, erased⟩ := erase_of_replace done
  exact (wf.rewire pairs).op?_erase_self erased

end Program

/-- From `p` to `q` no operation but the one at `root` gets another kind. Operations may be erased, and
new ones take new places. -/
structure Program.ConvertsOnly (p : Program) (root : OpId) (q : Program) : Prop where
  grows : p.ops.size ≤ q.ops.size
  kinds : ∀ id op, id < p.ops.size → id ≠ root → q.op? id = some op →
    ∃ old, p.op? id = some old ∧ old.kind = op.kind

namespace Program.ConvertsOnly

variable {p q r : Program} {root : OpId}

theorem refl (p : Program) (root : OpId) : p.ConvertsOnly root p where
  grows := Nat.le_refl _
  kinds _ op _ _ found := ⟨op, found, rfl⟩

theorem trans (first : p.ConvertsOnly root q) (second : q.ConvertsOnly root r) :
    p.ConvertsOnly root r where
  grows := Nat.le_trans first.grows second.grows
  kinds := by
    intro id op inside apart found
    obtain ⟨between, here, same⟩ :=
      second.kinds id op (Nat.lt_of_lt_of_le inside first.grows) apart found
    obtain ⟨old, foundOld, sameOld⟩ := first.kinds id between inside apart here
    exact ⟨old, foundOld, sameOld.trans same⟩

theorem insert {parent : Option OpId} {index : Nat} {op : Op} {types : List Ty} {id : OpId}
    (done : p.insert parent index op types = .ok (id, q)) : p.ConvertsOnly root q := by
  cases held : p.region parent with
  | error reason => simp [Program.insert, held] at done
  | ok region =>
    rw [insert_eq held] at done
    cases done
    constructor
    · simp
    · intro other kept inside _ found
      obtain ⟨old, here, more, rfl⟩ :=
        op?_of_inserted found (Nat.ne_of_lt inside)
      exact ⟨old, here, rfl⟩

theorem replaceUses (old new : ValueId) : p.ConvertsOnly root (p.replaceUses old new) where
  grows := by simp
  kinds := by
    intro id op _ _ found
    rw [op?_replaceUses] at found
    obtain ⟨before, here, rfl⟩ := Option.map_eq_some_iff.mp found
    exact ⟨before, here, rfl⟩

theorem rewire (pairs : List (ValueId × ValueId)) :
    p.ConvertsOnly root (pairs.foldl (fun p (old, new) => p.replaceUses old new) p) := by
  induction pairs generalizing p with
  | nil => exact refl p root
  | cons pair rest ih => exact (replaceUses pair.1 pair.2).trans ih

theorem erase {id : OpId} {op : Op} (done : p.erase id = .ok (op, q)) : p.ConvertsOnly root q := by
  refine ⟨Nat.le_of_eq (size_ops_erase done).symm, ?_⟩
  intro other kept _ _ here
  obtain ⟨-, rfl⟩ := eq_without_of_erase done
  obtain ⟨-, before, foundBefore, inside, rfl⟩ := op?_of_without here
  exact ⟨before, foundBefore, rfl⟩

theorem replace {id : OpId} {values : List ValueId} (done : p.replace id values = .ok q) :
    p.ConvertsOnly root q := by
  obtain ⟨pairs, op, erased⟩ := erase_of_replace done
  exact (rewire pairs).trans (erase erased)

theorem setKind (p : Program) (root : OpId) (kind : OpKind) :
    p.ConvertsOnly root (p.setKind root kind) where
  grows := by simp [Program.setKind]
  kinds := by
    intro id op _ apart found
    rw [Program.setKind, op?_modifyOp, if_neg apart] at found
    exact ⟨op, found, rfl⟩

end Program.ConvertsOnly

namespace Edit

variable {α β : Type} {root : OpId}

theorem ofExcept_eq_ok {p q : Program} {outcome : Except IrError α} {a : α} :
    ofExcept outcome p = .ok a q ↔ outcome = .ok a ∧ q = p := by
  cases outcome with
  | error reason => simp [ofExcept]
  | ok b => simp [ofExcept, eq_comm]

/-- An edit that succeeds gives no operation but the one at `root` another kind. -/
def ConvertsOnly (edit : Edit α) (root : OpId) : Prop :=
  ∀ p a q, edit p = .ok a q → p.ConvertsOnly root q

theorem convertsOnly_pure (a : α) : (pure a : Edit α).ConvertsOnly root := by
  intro p b q done
  cases done
  exact .refl p root

theorem convertsOnly_get : (get : Edit Program).ConvertsOnly root := by
  intro p b q done
  cases done
  exact .refl p root

theorem convertsOnly_throw (reason : ConvertError) : (throw reason : Edit α).ConvertsOnly root := by
  intro p b q done
  cases done

theorem ConvertsOnly.bind {edit : Edit α} {next : α → Edit β} (first : edit.ConvertsOnly root)
    (second : ∀ a, (next a).ConvertsOnly root) : (edit >>= next).ConvertsOnly root := by
  intro p b q done
  obtain ⟨a, between, ran, rest⟩ := seq_eq_ok.mp done
  exact (first p a between ran).trans (second a between b q rest)

theorem convertsOnly_setKind (root : OpId) (kind : OpKind) :
    (modify (·.setKind root kind) : Edit PUnit).ConvertsOnly root := by
  intro p b q done
  cases done
  exact .setKind p root kind

theorem erase_of_ok {id : OpId} {p q : Program} (done : Edit.erase id p = .ok () q) :
    ∃ op, p.erase id = .ok (op, q) := by
  obtain ⟨_, _, ⟨⟩, done⟩ := seq_eq_ok.mp done
  obtain ⟨⟨op, after⟩, _, ran, done⟩ := seq_eq_ok.mp done
  obtain ⟨erased, -⟩ := ofExcept_eq_ok.mp ran
  cases done
  exact ⟨op, erased⟩

theorem convertsOnly_erase (id : OpId) : (Edit.erase id).ConvertsOnly root := by
  intro p b q done
  obtain ⟨op, erased⟩ := erase_of_ok done
  exact .erase erased

theorem replace_of_ok {id : OpId} {values : List ValueId} {p q : Program}
    (done : Edit.replace id values p = .ok () q) : p.replace id values = .ok q := by
  obtain ⟨_, _, ⟨⟩, done⟩ := seq_eq_ok.mp done
  obtain ⟨after, _, ran, done⟩ := seq_eq_ok.mp done
  obtain ⟨replaced, -⟩ := ofExcept_eq_ok.mp ran
  cases done
  exact replaced

theorem convertsOnly_replace (id : OpId) (values : List ValueId) :
    (Edit.replace id values).ConvertsOnly root := by
  intro p b q done
  exact .replace (replace_of_ok done)

/-- What the steps of building keep is kept where they are taken before an operation. -/
theorem holds_buildBefore {holds : Program → Prop} {anchor : OpId} {steps : Build α} {p q : Program}
    {a : α} (keeps : steps.Keeps holds) (held : holds p)
    (done : buildBefore anchor steps p = .ok a q) : holds q := by
  obtain ⟨_, _, ⟨⟩, done⟩ := seq_eq_ok.mp done
  obtain ⟨b, _, ran, done⟩ := seq_eq_ok.mp done
  obtain ⟨before, -⟩ := ofExcept_eq_ok.mp ran
  have started : b.program = p := by
    unfold Builder.before at before
    split at before
    · cases before
      rfl
    · cases before
  have kept := keeps b (started ▸ held)
  unfold build at done
  unfold Build.after at kept
  split at done
  · rename_i built
    rw [built] at kept
    cases done
    exact kept
  · cases done

/-- Building inserts operations. -/
theorem convertsOnly_buildBefore (anchor : OpId) {steps : Build α}
    (inserts : ∀ p : Program, steps.Keeps (p.ConvertsOnly root)) :
    (buildBefore anchor steps).ConvertsOnly root := by
  intro p a q done
  exact holds_buildBefore (inserts p) (.refl p root) done

end Edit

namespace Rule

/-- Where the rule applies and succeeds, no operation but the one it converts gets another kind. -/
def ConvertsRoot (rule : Rule) : Prop :=
  ∀ p id op, p.op? id = some op → op.name = rule.root → rule.applies p id = true →
    ∀ events q, rule.apply id p = .ok events q → p.ConvertsOnly id q

/-- The rule never fails with the report of a conversion that got stuck. -/
def NeverStuck (rule : Rule) : Prop :=
  ∀ id p remaining applied q, rule.apply id p ≠ .error (.stuck remaining applied) q

theorem ConvertsRoot.of_apply {rule : Rule} (edits : ∀ id, (rule.apply id).ConvertsOnly id) :
    rule.ConvertsRoot := by
  intro p id op _ _ _ events q done
  exact edits id p events q done

variable (name root : String)

theorem ConvertsRoot.whileAbsent {rule : Rule} (converts : rule.ConvertsRoot) :
    (rule.whileAbsent name).ConvertsRoot := by
  intro p id op found named applies events q done
  exact converts p id op found named (Bool.and_eq_true_iff.mp applies).1 events q done

theorem convertsRoot_never : (never name root).ConvertsRoot :=
  .of_apply fun _ => Edit.convertsOnly_pure []

theorem convertsRoot_rename (new : String) : (rename name root new).ConvertsRoot :=
  .of_apply fun id => (Edit.convertsOnly_setKind id (.bare new)).bind fun _ =>
    Edit.convertsOnly_pure []

theorem convertsRoot_erase : (erase name root).ConvertsRoot :=
  .of_apply fun id => (Edit.convertsOnly_erase id).bind fun _ => Edit.convertsOnly_pure []

theorem convertsRoot_double : (double name root).ConvertsRoot := by
  apply ConvertsRoot.of_apply
  intro id
  refine Edit.convertsOnly_get.bind fun p => ?_
  dsimp only
  split
  · exact Edit.convertsOnly_throw _
  · rename_i value _
    have inserts : ∀ p : Program, (Build.addi value value).Keeps (p.ConvertsOnly id) := by
      intro p
      refine (Build.keeps_typeOf value).bind fun ty => ?_
      exact Build.keeps_insertValue (fun held _ inserted => held.trans (.insert inserted)) _ _ ty
    refine (Edit.convertsOnly_buildBefore id inserts).bind fun sum => ?_
    exact (Edit.convertsOnly_replace id [sum]).bind fun _ => Edit.convertsOnly_pure []

theorem keeps_buildChain {holds : Program → Prop} (types : List Ty) (names : List String)
    (kept : ∀ {p q : Program} {parent : Option OpId} {index : Nat} {op : Op} {types : List Ty}
      {id : OpId}, holds p → op.IsLeaf → op.name ∈ names → p.insert parent index op types = .ok (id, q) →
      holds q)
    (values : List ValueId) : (buildChain types names values).Keeps holds := by
  induction names generalizing values with
  | nil => exact Build.keeps_pure values
  | cons name rest ih =>
    refine Build.Keeps.bind Build.keeps_get fun b => ?_
    refine Build.Keeps.bind (Build.keeps_insert_kind ?_ values types) fun _ => ?_
    · intro p q parent index op types id held leaf kind inserted
      have named : op.name = name := congrArg OpKind.name kind
      exact kept held leaf (named ▸ List.mem_cons_self) inserted
    · apply ih
      intro p q parent index op types id held leaf mem inserted
      exact kept held leaf (List.mem_cons_of_mem name mem) inserted

theorem convertsRoot_expand (names : List String) : (expand name root names).ConvertsRoot := by
  apply ConvertsRoot.of_apply
  intro id
  refine Edit.convertsOnly_get.bind fun p => ?_
  split
  · exact Edit.convertsOnly_throw _
  · rename_i op _
    have inserts : ∀ (types : List Ty) (q : Program),
        (buildChain types names op.operands).Keeps (q.ConvertsOnly id) := by
      intro types q
      exact keeps_buildChain types names (fun held _ _ inserted => held.trans (.insert inserted))
        op.operands
    refine (Edit.convertsOnly_buildBefore id (inserts _)).bind fun values => ?_
    exact (Edit.convertsOnly_replace id values).bind fun _ => Edit.convertsOnly_pure []

end Rule

end RngLowering
