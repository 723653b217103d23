import RngLowering.Lowering
import RngLowering.Outcome
import RngLowering.Proofs.Edits

set_option autoImplicit false

namespace RngLowering

def OpKind.Legal (kind : OpKind) : Prop := Lowering.target.legality kind.name = .legal

instance (kind : OpKind) : Decidable kind.Legal := inferInstanceAs (Decidable (_ = _))

namespace Program

/-- An operation of `p` as it is in `q`. -/
structure KeptAs (p q : Program) (op kept : Op) : Prop where
  kind : kept.kind = op.kind
  loc : kept.loc = op.loc
  results : kept.results = op.results
  operands : List.Forall₂ (fun v w => ∀ ty, p.typeOf v = .ok ty → q.typeOf w = .ok ty) op.operands
    kept.operands

/-- The program `q` has the operations of `p` but for those that are gone. What is new in it is legal,
and defines no symbol that there was. If it defines the counter, then as the counter should be. -/
structure Keeps (config : Config) (p q : Program) (gone : List OpId) : Prop where
  name : q.name = p.name
  types : ∀ v ty, p.typeOf v = .ok ty → q.typeOf v = .ok ty
  ops : ∀ id op, p.op? id = some op → id ∉ gone → ∃ kept, q.op? id = some kept ∧ p.KeptAs q op kept
  walk : ∀ id ∈ p.walk, id ∉ gone → id ∈ q.walk
  walkBack : ∀ id ∈ q.walk, (p.op? id).isSome → id ∈ p.walk
  gone : ∀ id ∈ gone, id < q.ops.size ∧ q.op? id = none
  news : ∀ id kept, q.op? id = some kept → (p.op? id).isSome ∨ p.ops.size ≤ id ∧ kept.kind.Legal
  size : p.ops.size ≤ q.ops.size
  symbols : ∀ sym id, p.lookupSymbol? sym = some id → q.lookupSymbol? sym = some id
  counter : p.lookupSymbol? config.stateSymbol = none →
    ∀ id, q.lookupSymbol? config.stateSymbol = some id →
      ∃ kept, q.op? id = some kept ∧ Counter.isCell kept.kind config.counterBits = true

theorem KeptAs.refl (p : Program) (op : Op) : p.KeptAs p op op :=
  ⟨rfl, rfl, rfl, List.forall₂_same.mpr fun _ _ _ typed => typed⟩

theorem forall₂_trans {α β γ : Type} {R : α → β → Prop} {S : β → γ → Prop} {T : α → γ → Prop}
    {left : List α} {middle : List β} {right : List γ} (first : List.Forall₂ R left middle)
    (second : List.Forall₂ S middle right) (trans : ∀ a b c, R a b → S b c → T a c) :
    List.Forall₂ T left right := by
  induction first generalizing right with
  | nil =>
    cases second
    exact .nil
  | cons head rest ih =>
    cases second with
    | cons next more => exact .cons (trans _ _ _ head next) (ih more)

theorem KeptAs.trans {p q r : Program} {op kept last : Op} (first : p.KeptAs q op kept)
    (second : q.KeptAs r kept last) : p.KeptAs r op last where
  kind := second.kind.trans first.kind
  loc := second.loc.trans first.loc
  results := second.results.trans first.results
  operands := forall₂_trans first.operands second.operands
    fun _ _ _ now next ty typed => next ty (now ty typed)

/-- What defines a symbol is there. -/
theorem op?_of_lookupSymbol? {p : Program} {sym : String} {id : OpId}
    (found : p.lookupSymbol? sym = some id) : ∃ op, p.op? id = some op ∧ op.kind.defines sym = true := by
  have test := List.find?_some found
  cases here : p.op? id with
  | none => simp [here] at test
  | some op => exact ⟨op, rfl, by simpa [here] using test⟩

theorem exists_of_mem_walk {p : Program} {id : OpId} (mem : id ∈ p.walk) :
    ∃ op, p.op? id = some op := by
  have inside : ∀ depth region, id ∈ p.walkRegion depth region → ∃ op, p.op? id = some op := by
    intro depth
    induction depth with
    | zero =>
      intro region mem
      cases mem
    | succ depth ih =>
      intro region mem
      obtain ⟨other, -, mem⟩ := List.mem_flatMap.mp mem
      split at mem
      · rename_i op found
        rcases List.mem_cons.mp mem with rfl | nested
        · exact ⟨op, found⟩
        · exact ih _ nested
      · cases mem
  exact inside _ _ mem

namespace Keeps

variable {config : Config} {p q r : Program} {first second : List OpId}

theorem refl (config : Config) (p : Program) : p.Keeps config p [] where
  name := rfl
  types _ _ typed := typed
  ops _ op found _ := ⟨op, found, .refl p op⟩
  walk _ mem _ := mem
  walkBack _ mem _ := mem
  gone := by simp
  news _ _ found := Or.inl (by simp [found])
  size := Nat.le_refl _
  symbols _ _ found := found
  counter undefined id found := by
    rw [undefined] at found
    cases found

/-- What is kept in a later program has the kind that it had. -/
theorem kind_eq (keeps : p.Keeps config q first) {id : OpId} {op kept : Op}
    (found : p.op? id = some op) (later : q.op? id = some kept) : kept.kind = op.kind := by
  have here : id ∉ first := by
    intro mem
    rw [(keeps.gone id mem).2] at later
    cases later
  obtain ⟨same, again, keptAs⟩ := keeps.ops id op found here
  rw [later] at again
  cases again
  exact keptAs.kind

theorem trans (keeps : p.Keeps config q first) (more : q.Keeps config r second) :
    p.Keeps config r (first ++ second) where
  name := more.name.trans keeps.name
  types v ty typed := more.types v ty (keeps.types v ty typed)
  ops id op found here := by
    rw [List.mem_append, not_or] at here
    obtain ⟨kept, foundKept, keptAs⟩ := keeps.ops id op found here.1
    obtain ⟨last, foundLast, lastAs⟩ := more.ops id kept foundKept here.2
    exact ⟨last, foundLast, keptAs.trans lastAs⟩
  walk id mem here := by
    rw [List.mem_append, not_or] at here
    exact more.walk id (keeps.walk id mem here.1) here.2
  walkBack id mem live := by
    obtain ⟨last, found⟩ := exists_of_mem_walk mem
    obtain ⟨op, foundOp⟩ := Option.isSome_iff_exists.mp live
    refine keeps.walkBack id (more.walkBack id mem ?_) live
    rcases more.news id last found with before | ⟨new, -⟩
    · exact before
    · exact absurd (Nat.lt_of_lt_of_le (op?_lt foundOp) keeps.size) (Nat.not_lt_of_le new)
  gone id mem := by
    rcases List.mem_append.mp mem with inFirst | inSecond
    · obtain ⟨inside, dead⟩ := keeps.gone id inFirst
      refine ⟨Nat.lt_of_lt_of_le inside more.size, ?_⟩
      cases live : r.op? id with
      | none => rfl
      | some kept =>
        rcases more.news id kept live with before | ⟨new, -⟩
        · simp [dead] at before
        · exact absurd inside (Nat.not_lt_of_le new)
    · exact more.gone id inSecond
  news id last found := by
    rcases more.news id last found with before | ⟨new, legal⟩
    · obtain ⟨kept, foundKept⟩ := Option.isSome_iff_exists.mp before
      rcases keeps.news id kept foundKept with already | ⟨created, legal⟩
      · exact Or.inl already
      · rw [← more.kind_eq foundKept found] at legal
        exact Or.inr ⟨created, legal⟩
    · exact Or.inr ⟨Nat.le_trans keeps.size new, legal⟩
  size := Nat.le_trans keeps.size more.size
  symbols sym id found := more.symbols sym id (keeps.symbols sym id found)
  counter undefined id found := by
    cases middle : q.lookupSymbol? config.stateSymbol with
    | none => exact more.counter middle id found
    | some other =>
      obtain ⟨kept, foundKept, isCell⟩ := keeps.counter undefined other middle
      have same := more.symbols _ other middle
      rw [found] at same
      cases same
      obtain ⟨last, foundLast, -⟩ := op?_of_lookupSymbol? found
      refine ⟨last, foundLast, ?_⟩
      rw [more.kind_eq foundKept foundLast]
      exact isCell

end Keeps

section

variable {config : Config} {p q : Program} {o after : Outline} {parent : Option OpId}
  {front old new back : List OpId}

theorem find?_congr {α : Type} {f g : α → Bool} {items : List α} (same : ∀ a ∈ items, f a = g a) :
    items.find? f = items.find? g := by
  induction items with
  | nil => rfl
  | cons head rest ih =>
    rw [List.find?_cons, List.find?_cons, same head (by simp), ih fun a mem => same a (by simp [mem])]

namespace Splices

theorem keptAs (edit : p.Splices q parent front old new back) {id : OpId} {op : Op}
    (found : p.op? id = some op) (here : id ∉ old) :
    ∃ kept, q.op? id = some kept ∧ p.KeptAs q op kept := by
  have operands : List.Forall₂ (fun v w => ∀ ty, p.typeOf v = .ok ty → q.typeOf w = .ok ty)
      op.operands op.operands := List.forall₂_same.mpr fun v _ ty typed => edit.types v ty typed
  by_cases owner : parent = some id
  · exact ⟨_, edit.owner id op owner found, rfl, rfl, rfl, operands⟩
  · exact ⟨op, edit.keep id op found here owner, rfl, rfl, rfl, operands⟩

/-- What was in the body and was not erased is in the body. -/
theorem mem_body (edit : p.Splices q parent front old new back) {id : OpId} (mem : id ∈ p.body)
    (here : id ∉ old) : id ∈ q.body := by
  rw [edit.body]
  split
  · rename_i top
    have region := edit.region
    rw [top] at region
    have body : p.body = front ++ old ++ back := Except.ok.inj region
    rw [body] at mem
    simp only [List.mem_append] at mem ⊢
    rcases mem with (inFront | inOld) | inBack
    · exact Or.inl (Or.inl inFront)
    · exact absurd inOld here
    · exact Or.inr inBack
  · exact mem

theorem mem_walk (edit : p.Splices q parent front old new back) (before : p.Represents o)
    (rep : q.Represents after)
    (erased : ∀ id ∈ old, ∃ op, p.op? id = some op ∧ op.region = []) {id : OpId}
    (mem : id ∈ p.walk) (here : id ∉ old) : id ∈ q.walk := by
  rw [Program.mem_walk before] at mem
  rw [Program.mem_walk rep]
  rcases mem with inBody | ⟨func, inBody, op, found, inside⟩
  · exact Or.inl (edit.mem_body inBody here)
  · have funcStays : func ∉ old := by
      intro inOld
      obtain ⟨other, foundOther, empty⟩ := erased func inOld
      rw [found] at foundOther
      cases foundOther
      rw [empty] at inside
      cases inside
    refine Or.inr ⟨func, edit.mem_body inBody funcStays, ?_⟩
    by_cases owner : parent = some func
    · refine ⟨_, edit.owner func op owner found, ?_⟩
      have region := edit.region
      rw [owner] at region
      simp only [Program.region, found] at region
      rw [Except.ok.inj region] at inside
      simp only [List.mem_append] at inside ⊢
      rcases inside with (inFront | inOld) | inBack
      · exact Or.inl (Or.inl inFront)
      · exact absurd inOld here
      · exact Or.inr inBack
    · exact ⟨op, edit.keep func op found funcStays owner, inside⟩

/-- What is in the body and was there before was in the body. -/
theorem mem_body_of_old (edit : p.Splices q parent front old new back) {id : OpId}
    (mem : id ∈ q.body) (here : id ∉ new) : id ∈ p.body := by
  rw [edit.body] at mem
  split at mem
  · rename_i top
    have region := edit.region
    rw [top] at region
    rw [show p.body = front ++ old ++ back from Except.ok.inj region]
    simp only [List.mem_append, here, or_false] at mem ⊢
    exact mem.imp_left Or.inl
  · exact mem

theorem mem_walk_of_old (edit : p.Splices q parent front old new back) (before : p.Represents o)
    (rep : q.Represents after)
    (created : ∀ id ∈ new, ∀ op, q.op? id = some op → op.region = []) {id : OpId}
    (mem : id ∈ q.walk) (live : (p.op? id).isSome) : id ∈ p.walk := by
  have notNew : ∀ other, (p.op? other).isSome → other ∉ new := by
    intro other live isNew
    obtain ⟨op, found⟩ := Option.isSome_iff_exists.mp live
    exact Nat.not_lt_of_le (edit.fresh other isNew) (op?_lt found)
  rw [Program.mem_walk rep] at mem
  rw [Program.mem_walk before]
  rcases mem with inBody | ⟨func, inBody, kept, found, inside⟩
  · exact Or.inl (edit.mem_body_of_old inBody (notNew id live))
  · have oldFunc : func ∉ new := by
      intro isNew
      rw [created func isNew kept found] at inside
      cases inside
    obtain ⟨op, foundOp⟩ := Option.isSome_iff_exists.mp (edit.rest func (by simp [found]) oldFunc)
    have stays : func ∉ old := by
      intro inOld
      rw [edit.gone func inOld] at found
      cases found
    refine Or.inr ⟨func, edit.mem_body_of_old inBody oldFunc, op, foundOp, ?_⟩
    by_cases owner : parent = some func
    · have region := edit.region
      rw [owner] at region
      simp only [Program.region, foundOp] at region
      rw [edit.owner func op owner foundOp] at found
      cases found
      rw [Except.ok.inj region]
      simp only [List.mem_append, notNew id live, or_false] at inside ⊢
      exact inside.imp_left Or.inl
    · rw [edit.keep func op foundOp stays owner] at found
      cases found
      exact inside

/-- Operations that define no symbol come and go without a symbol taking notice. -/
theorem lookupSymbol?_eq (edit : p.Splices q parent front old new back) (before : p.Represents o)
    {sym : String} (erased : ∀ id ∈ old, (p.op? id).any (·.kind.defines sym) = false)
    (created : ∀ id ∈ new, (q.op? id).any (·.kind.defines sym) = false) :
    q.lookupSymbol? sym = p.lookupSymbol? sym := by
  have same : ∀ id ∈ p.body, (q.op? id).any (·.kind.defines sym) =
      (p.op? id).any (·.kind.defines sym) := by
    intro id mem
    by_cases here : id ∈ old
    · rw [edit.gone id here, erased id here]
      rfl
    · obtain ⟨item, -, holds⟩ := forall₂_exists_of_mem before.items mem
      obtain ⟨op, found⟩ := holds.exists_op
      obtain ⟨kept, foundKept, keptAs⟩ := edit.keptAs found here
      rw [found, foundKept, Option.any_some, Option.any_some, keptAs.kind]
  unfold Program.lookupSymbol?
  rw [edit.body]
  by_cases top : parent = none
  · have region := edit.region
    rw [top] at region
    have body : p.body = front ++ old ++ back := Except.ok.inj region
    rw [if_pos top, body]
    rw [body] at same
    have oldNone : old.find? (fun id => (p.op? id).any (·.kind.defines sym)) = none :=
      List.find?_eq_none.mpr fun id mem => by simp [erased id mem]
    have newNone : new.find? (fun id => (q.op? id).any (·.kind.defines sym)) = none :=
      List.find?_eq_none.mpr fun id mem => by simp [created id mem]
    simp only [List.find?_append, oldNone, newNone, Option.or_none]
    rw [find?_congr fun id mem => same id (by simp [mem]),
      find?_congr fun id mem => same id (by simp [mem])]
  · rw [if_neg top]
    exact find?_congr same

theorem keeps (edit : p.Splices q parent front old new back) (before : p.Represents o)
    (rep : q.Represents after)
    (erased : ∀ id ∈ old, ∃ op, p.op? id = some op ∧ op.region = [] ∧
      op.kind.definesSymbol = false)
    (created : ∀ id ∈ new, ∀ op, q.op? id = some op → op.region = [] ∧ op.kind.Legal ∧
      ∀ sym, op.kind.defines sym = true → p.lookupSymbol? sym = none ∧
        (sym = config.stateSymbol → Counter.isCell op.kind config.counterBits = true)) :
    p.Keeps config q old where
  name := edit.name
  types := edit.types
  ops id op found here := edit.keptAs found here
  walk id mem here := by
    refine edit.mem_walk before rep (fun other inOld => ?_) mem here
    obtain ⟨op, found, empty, -⟩ := erased other inOld
    exact ⟨op, found, empty⟩
  walkBack id mem live :=
    edit.mem_walk_of_old before rep (fun other isNew op found => (created other isNew op found).1)
      mem live
  gone id mem := by
    obtain ⟨op, found, -⟩ := erased id mem
    exact ⟨Nat.lt_of_lt_of_le (op?_lt found) edit.size, edit.gone id mem⟩
  news id kept found := by
    by_cases isNew : id ∈ new
    · exact Or.inr ⟨edit.fresh id isNew, (created id isNew kept found).2.1⟩
    · exact Or.inl (edit.rest id (by simp [found]) isNew)
  size := edit.size
  symbols sym id found := by
    rw [edit.lookupSymbol?_eq before, found]
    · intro other inOld
      obtain ⟨op, foundOther, -, plain⟩ := erased other inOld
      simp [foundOther, OpKind.defines, plain]
    · intro other isNew
      cases here : q.op? other with
      | none => rfl
      | some op =>
        rw [Option.any_some, Bool.eq_false_iff]
        intro defines
        rw [((created other isNew op here).2.2 sym defines).1] at found
        cases found
  counter undefined id found := by
    obtain ⟨kept, foundKept, defines⟩ := op?_of_lookupSymbol? found
    refine ⟨kept, foundKept, ?_⟩
    by_cases isNew : id ∈ new
    · exact ((created id isNew kept foundKept).2.2 _ defines).2 rfl
    · -- an operation that was there would define the symbol before
      have inBody := edit.mem_body_of_old (List.mem_of_find?_eq_some found) isNew
      have here : id ∉ old := by
        intro inOld
        rw [edit.gone id inOld] at foundKept
        cases foundKept
      obtain ⟨op, foundOp⟩ := Option.isSome_iff_exists.mp (edit.rest id (by simp [foundKept]) isNew)
      obtain ⟨same, foundSame, keptAs⟩ := edit.keptAs foundOp here
      rw [foundKept] at foundSame
      cases foundSame
      have test := List.find?_eq_none.mp undefined id inBody
      simp [foundOp, ← keptAs.kind, defines] at test

end Splices

theorem walk_replaceUses (p : Program) (old new : ValueId) :
    (p.replaceUses old new).walk = p.walk := by
  have same : ∀ depth region,
      (p.replaceUses old new).walkRegion depth region = p.walkRegion depth region := by
    intro depth
    induction depth with
    | zero => exact fun region => rfl
    | succ depth ih =>
      intro region
      simp only [walkRegion, op?_replaceUses]
      refine congrArg (region.flatMap ·) (funext fun id => ?_)
      cases p.op? id with
      | none => rfl
      | some op => exact congrArg (id :: ·) (ih op.region)
  unfold walk
  rw [size_ops_replaceUses]
  exact same _ _

theorem KeptAs.replaceUses {r c : ValueId} {ty : Ty} (oldTyped : p.typeOf r = .ok ty)
    (newTyped : p.typeOf c = .ok ty) (op : Op) :
    p.KeptAs (p.replaceUses r c) op (op.replaceUse r c) where
  kind := rfl
  loc := rfl
  results := rfl
  operands := by
    refine List.forall₂_map_right_iff.mpr (List.forall₂_same.mpr fun v _ other typed => ?_)
    rw [typeOf_replaceUses]
    split
    · rename_i same
      rw [same, oldTyped] at typed
      rw [newTyped, typed]
    · exact typed

/-- Rewiring uses to a value of the same type keeps all operations. -/
theorem keeps_replaceUses {r c : ValueId} {ty : Ty}
    (oldTyped : p.typeOf r = .ok ty) (newTyped : p.typeOf c = .ok ty) :
    p.Keeps config (p.replaceUses r c) [] := by
  have lookups : ∀ sym, (p.replaceUses r c).lookupSymbol? sym = p.lookupSymbol? sym := by
    intro sym
    refine find?_congr fun id _ => ?_
    rw [op?_replaceUses]
    cases p.op? id <;> rfl
  exact {
    name := rfl
    types := fun v ty typed => typed
    ops := fun id op found _ => by
      refine ⟨op.replaceUse r c, ?_, .replaceUses oldTyped newTyped op⟩
      rw [op?_replaceUses, found]
      rfl
    walk := fun id mem _ => by rw [walk_replaceUses]; exact mem
    walkBack := fun id mem _ => by rw [walk_replaceUses] at mem; exact mem
    gone := by simp
    news := fun id kept found => by
      rw [op?_replaceUses] at found
      obtain ⟨op, here, -⟩ := Option.map_eq_some_iff.mp found
      exact Or.inl (by simp [here])
    size := by simp
    symbols := fun sym id found => by rw [lookups, found]
    counter := fun undefined id found => by
      rw [lookups, undefined] at found
      cases found }

end

end Program

/-- Why the operation at a place cannot be lowered: it is no proper state update, or the name of the
counter is defined first by something else. -/
def StateUpdate.refusal? (config : Config) (p : Program) (id : OpId) : Option ConvertError :=
  match inspect config.counterBits p id with
  | .error reason => some reason
  | .ok _ => do
    let op ← p.op? (← p.lookupSymbol? config.stateSymbol)
    if Counter.isCell op.kind config.counterBits then none
    else
      let loc := op.loc.or ((p.op? id).bind (·.loc))
      some (.symbolMismatch config.stateSymbol op.kind (Counter.cellTy config.counterBits) loc)

/-- What is not refused passes inspection, and the name of the counter is free or that of a counter. -/
theorem StateUpdate.refusal?_eq_none {config : Config} {p : Program} {id : OpId}
    (accepted : refusal? config p id = none) :
    (∃ parts, inspect config.counterBits p id = .ok parts) ∧
      ∀ d op, p.lookupSymbol? config.stateSymbol = some d → p.op? d = some op →
        Counter.isCell op.kind config.counterBits = true := by
  unfold refusal? at accepted
  cases passed : inspect config.counterBits p id with
  | error reason => simp [passed] at accepted
  | ok parts =>
    refine ⟨⟨parts, rfl⟩, fun d op found foundOp => ?_⟩
    simp [passed, found] at accepted
    exact accepted op foundOp

namespace Program.Keeps

variable {config : Config} {p q : Program} {gone : List OpId} {id : OpId} {op : Op}

/-- What is kept is as proper a state update as it was, but for its delta. -/
theorem inspect_eq (keeps : p.Keeps config q gone) (found : p.op? id = some op) (here : id ∉ gone)
    (typed : ∀ v ∈ op.operands ++ op.results, ∃ ty, p.typeOf v = .ok ty) (counterBits : Nat) :
    ∃ delta, StateUpdate.inspect counterBits q id =
      (StateUpdate.inspect counterBits p id).map fun parts => { parts with delta } := by
  obtain ⟨kept, foundKept, keptAs⟩ := keeps.ops id op found here
  have name : kept.name = op.name := congrArg OpKind.name keptAs.kind
  have checked : ∀ {α : Type} (outcome : Except StateUpdate.Fault α),
      StateUpdate.inspect.checked kept outcome = StateUpdate.inspect.checked op outcome := by
    intro α outcome
    cases outcome <;> simp only [StateUpdate.inspect.checked, name, keptAs.loc]
  unfold StateUpdate.inspect
  rw [found, foundKept]
  dsimp only
  have operands := keptAs.operands
  rw [keptAs.results]
  match op.operands, kept.operands, op.results, operands, typed with
  | [], [], _, _, _ =>
    refine ⟨0, ?_⟩
    simp only [StateUpdate.inspect.single, checked]
    rfl
  | _ :: v :: more, _ :: w :: others, _, same, _ =>
    refine ⟨0, ?_⟩
    have length := same.length_eq
    simp only [StateUpdate.inspect.single, checked, length]
    rfl
  | [v], [w], [], _, _ =>
    refine ⟨0, ?_⟩
    simp only [StateUpdate.inspect.single, checked]
    rfl
  | [v], [w], _ :: _ :: _, _, _ =>
    refine ⟨0, ?_⟩
    simp only [StateUpdate.inspect.single, checked]
    rfl
  | [v], [w], [r], same, typed =>
    obtain ⟨deltaTy, deltaTyped⟩ := typed v (by simp)
    obtain ⟨resultTy, resultTyped⟩ := typed r (by simp)
    have sameDelta : q.typeOf w = .ok deltaTy := (List.forall₂_cons.mp same).1 deltaTy deltaTyped
    refine ⟨w, ?_⟩
    simp only [StateUpdate.inspect.single, StateUpdate.inspect.ir, ok_bind, checked, deltaTyped,
      sameDelta, resultTyped, keeps.types r resultTy resultTyped, keptAs.loc]
    cases StateUpdate.inspectDelta counterBits deltaTy with
    | error fault => rfl
    | ok deltaTy =>
      cases StateUpdate.inspectResult resultTy with
      | error fault => rfl
      | ok parts =>
        simp only [StateUpdate.inspect.checked, ok_bind]
        split <;> rfl

/-- What defines a symbol is kept. -/
theorem keptAs_of_lookupSymbol? (keeps : p.Keeps config q gone) {sym : String} {d : OpId}
    (before : p.lookupSymbol? sym = some d) : ∃ former kept, p.op? d = some former ∧
      q.lookupSymbol? sym = some d ∧ q.op? d = some kept ∧ p.KeptAs q former kept := by
  have after := keeps.symbols sym d before
  obtain ⟨former, found, -⟩ := op?_of_lookupSymbol? before
  have stays : d ∉ gone := by
    intro mem
    obtain ⟨last, foundLast, -⟩ := op?_of_lookupSymbol? after
    rw [(keeps.gone d mem).2] at foundLast
    cases foundLast
  obtain ⟨kept, foundKept, keptAs⟩ := keeps.ops d former found stays
  exact ⟨former, kept, found, after, foundKept, keptAs⟩

/-- What is kept is refused for the reason that it was. -/
theorem refusal?_eq (keeps : p.Keeps config q gone) (found : p.op? id = some op) (here : id ∉ gone)
    (typed : ∀ v ∈ op.operands ++ op.results, ∃ ty, p.typeOf v = .ok ty) :
    StateUpdate.refusal? config q id = StateUpdate.refusal? config p id := by
  obtain ⟨delta, same⟩ := keeps.inspect_eq found here typed config.counterBits
  obtain ⟨kept, foundKept, keptAs⟩ := keeps.ops id op found here
  unfold StateUpdate.refusal?
  rw [same]
  cases StateUpdate.inspect config.counterBits p id with
  | error reason => rfl
  | ok parts =>
    simp only [Except.map, found, foundKept, Option.bind_some, keptAs.loc]
    cases before : p.lookupSymbol? config.stateSymbol with
    | none =>
      cases after : q.lookupSymbol? config.stateSymbol with
      | none => rfl
      | some id =>
        obtain ⟨cell, foundCell, isCell⟩ := keeps.counter before id after
        simp [foundCell, isCell]
    | some id =>
      obtain ⟨cell, last, foundCell, after, foundLast, lastAs⟩ := keeps.keptAs_of_lookupSymbol? before
      simp [after, foundCell, foundLast, lastAs.kind, lastAs.loc]

end Program.Keeps

end RngLowering
