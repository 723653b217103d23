import RngLowering.Proofs.Exchange
import RngLowering.Proofs.Verdict

set_option autoImplicit false

namespace RngLowering

namespace Program

theorem lookupSymbol?_isSome_iff {p : Program} {sym : String} :
    (p.lookupSymbol? sym).isSome = true ↔
      ∃ id ∈ p.body, ∃ op, p.op? id = some op ∧ op.kind.defines sym = true := by
  rw [lookupSymbol?, List.find?_isSome]
  constructor
  · rintro ⟨id, mem, defines⟩
    cases found : p.op? id with
    | none => simp [found] at defines
    | some op => exact ⟨id, mem, op, found, by simpa [found] using defines⟩
  · rintro ⟨id, mem, op, found, defines⟩
    exact ⟨id, mem, by simpa [found] using defines⟩

theorem lookupSymbol?_eq_none_iff {p : Program} {sym : String} :
    p.lookupSymbol? sym = none ↔
      ∀ id ∈ p.body, ∀ op, p.op? id = some op → op.kind.defines sym = false := by
  rw [← Option.not_isSome_iff_eq_none, lookupSymbol?_isSome_iff]
  simp only [not_exists, not_and, Bool.not_eq_true]

theorem lookupSymbol?_of_head? {p : Program} {sym : String} {id : OpId} {op : Op}
    (isFirst : p.body.head? = some id) (found : p.op? id = some op)
    (defines : op.kind.defines sym = true) : p.lookupSymbol? sym = some id := by
  obtain ⟨rest, body⟩ := List.head?_eq_some_iff.mp isFirst
  rw [lookupSymbol?, body]
  exact List.find?_cons_of_pos (by simpa [found] using defines)

section

variable {p : Program} {config : Config} {loc : Option Loc}

theorem body_withCounter :
    (p.withCounter config loc).body =
      if (p.lookupSymbol? config.stateSymbol).isSome then p.body else p.ops.size :: p.body := by
  unfold withCounter
  split
  · rfl
  · have held : p.region none = .ok ([] ++ p.body) := rfl
    exact Except.ok.inj (region_place held loc [config.counterStmt])

theorem size_ops_withCounter :
    (p.withCounter config loc).ops.size =
      p.ops.size + if p.lookupSymbol? config.stateSymbol = none then 1 else 0 := by
  cases defined : p.lookupSymbol? config.stateSymbol with
  | some d => simp [withCounter_of_some defined]
  | none => simp [withCounter_of_none defined]

theorem op?_counter (undefined : p.lookupSymbol? config.stateSymbol = none) :
    (p.withCounter config loc).op? p.ops.size = some (config.counterStmt.toOp none loc) := by
  rw [withCounter_of_none undefined]
  have first : [config.counterStmt][0]? = some config.counterStmt := rfl
  exact op?_place_new ⟨p.body, rfl⟩ (.nil p.values.size) first loc 0

/-- What is new is the counter. -/
theorem op?_of_withCounter {id : OpId} {kept : Op}
    (found : (p.withCounter config loc).op? id = some kept) :
    (∃ old inside, p.op? id = some old ∧ kept = { old with region := inside }) ∨
      p.lookupSymbol? config.stateSymbol = none ∧ id = p.ops.size ∧
        kept = config.counterStmt.toOp none loc := by
  cases defined : p.lookupSymbol? config.stateSymbol with
  | some d =>
    rw [withCounter_of_some defined] at found
    exact Or.inl ⟨kept, kept.region, found, rfl⟩
  | none =>
    rw [withCounter_of_none defined] at found
    have upTo := op?_lt found
    rw [size_ops_place, List.length_singleton] at upTo
    rcases op?_of_place ⟨p.body, rfl⟩ (.nil p.values.size) found with
      before | ⟨since, s, mem, rfl⟩
    · exact Or.inl before
    · cases List.mem_singleton.mp mem
      exact Or.inr ⟨rfl, Nat.le_antisymm (Nat.le_of_lt_succ upTo) since, rfl⟩

theorem lookupSymbol?_withCounter :
    ((p.withCounter config loc).lookupSymbol? config.stateSymbol).isSome = true := by
  cases defined : p.lookupSymbol? config.stateSymbol with
  | some id => rw [withCounter_of_some defined, defined, Option.isSome_some]
  | none =>
    refine lookupSymbol?_isSome_iff.mpr ⟨p.ops.size, ?_, _, op?_counter defined,
      Counter.defines_counterStmt config⟩
    rw [body_withCounter, defined]
    exact List.mem_cons_self

end

section

variable {p : Program} {id : OpId} {op : Op} {stmts : List Stmt} {old new : ValueId}
  {front back : List OpId}

theorem body_of_region (held : p.region none = .ok (front ++ id :: back)) :
    p.body = front ++ id :: back := Except.ok.inj held

theorem WellFormed.not_mem_body (wf : p.WellFormed) (found : p.op? id = some op)
    (inner : op.parent ≠ none) : id ∉ p.body := by
  intro mem
  obtain ⟨again, here, top⟩ := wf.inside none p.body rfl id mem
  rw [found] at here
  cases here
  exact inner top

/-- Everything at the top level stays in order but for the operation itself. -/
theorem filter_body_exchange (wf : p.WellFormed) (found : p.op? id = some op)
    (held : p.region op.parent = .ok (front ++ id :: back)) {limit : Nat} (upTo : limit ≤ p.ops.size) :
    (p.exchange id op front.length stmts old new).body.filter (· < limit) =
      (p.body.filter (· < limit)).filter (· ≠ id) := by
  have without : p.body.filter (· ≠ id) = if op.parent = none then front ++ back else p.body := by
    split
    · rename_i top
      rw [top] at held
      rw [body_of_region held]
      exact filter_ne_append_cons (wf.nodup none _ held)
    · rename_i inner
      exact filter_ne_of_not_mem (wf.not_mem_body found inner)
  have late : (List.range' p.ops.size stmts.length).filter (· < limit) = [] := by
    refine List.filter_eq_nil_iff.mpr fun other mem => ?_
    have since := (List.mem_range'_1.mp mem).1
    simpa using Nat.le_trans upTo since
  rw [List.filter_comm, without, body_exchange wf held]
  split
  · rw [List.filter_append, List.filter_append, late, List.append_nil, List.filter_append]
  · rfl

theorem head?_body_exchange (wf : p.WellFormed)
    (held : p.region op.parent = .ok (front ++ id :: back)) {first : OpId}
    (isFirst : p.body.head? = some first) (apart : first ≠ id) :
    (p.exchange id op front.length stmts old new).body.head? = some first := by
  rw [body_exchange wf held]
  split
  · rename_i top
    rw [top] at held
    rw [body_of_region held] at isFirst
    cases front with
    | nil =>
      cases isFirst
      exact absurd rfl apart
    | cons head rest => exact isFirst
  · exact isFirst

theorem mem_body_exchange (wf : p.WellFormed)
    (held : p.region op.parent = .ok (front ++ id :: back)) {other : OpId} (mem : other ∈ p.body)
    (apart : other ≠ id) : other ∈ (p.exchange id op front.length stmts old new).body := by
  rw [body_exchange wf held]
  split
  · rename_i top
    rw [top] at held
    rw [body_of_region held] at mem
    simp only [List.mem_append, List.mem_cons, apart, false_or] at mem ⊢
    rcases mem with before | after
    · exact Or.inl (Or.inl before)
    · exact Or.inr after
  · exact mem

theorem lookupSymbol?_exchange (wf : p.WellFormed) (found : p.op? id = some op)
    (held : p.region op.parent = .ok (front ++ id :: back))
    (numbered : NumberedFrom p.values.size (stmts.flatMap Stmt.defs)) {sym : String}
    (silent : op.kind.defines sym = false) (defined : (p.lookupSymbol? sym).isSome = true) :
    ((p.exchange id op front.length stmts old new).lookupSymbol? sym).isSome = true := by
  obtain ⟨other, mem, before, here, defines⟩ := lookupSymbol?_isSome_iff.mp defined
  have apart : other ≠ id := by
    rintro rfl
    rw [found] at here
    cases here
    rw [silent] at defines
    cases defines
  obtain ⟨kept, foundKept⟩ := isLive_iff.mp (isLive_exchange wf found ⟨_, held⟩ mem apart
    front.length stmts old new)
  refine lookupSymbol?_isSome_iff.mpr ⟨other, mem_body_exchange wf held mem apart, kept,
    foundKept, ?_⟩
  rcases (op?_of_exchange wf found ⟨_, held⟩ numbered foundKept).2 with
    ⟨again, inside, foundAgain, rfl⟩ | ⟨since, -⟩
  · rw [here] at foundAgain
    cases foundAgain
    exact defines
  · exact absurd (op?_lt here) (Nat.not_lt_of_le since)

end

end Program

/-- A block accesses the counter. -/
theorem StateUpdate.results_of_getGlobal {sym other : String} {wide : IntTy} {parts : Parts}
    {n : ValueId} {s : Stmt} (mem : s ∈ block sym wide parts n) (access : s.kind = .getGlobal other) :
    other = sym ∧ s.results = [(n, .memref wide)] := by
  simp only [block, accessStmts, advanceStmts, packStmts, List.mem_append, List.mem_cons,
    List.not_mem_nil, or_false] at mem
  rcases mem with (rfl | rfl) | delta | (rfl | rfl) | words | rfl | rfl
  · cases access
    exact ⟨rfl, rfl⟩
  · cases access
  · rcases kind_of_mem_deltaStmts delta with kind | kind <;> rw [kind] at access <;> cases access
  · cases access
  · cases access
  · rcases kind_of_mem_wordStmts words with ⟨value, kind⟩ | kind | kind <;> rw [kind] at access <;>
      cases access
  · cases access
  · cases access

namespace Lowering

/-- From `p` to `q` the body keeps its order, the counter is the only new operation that defines a
symbol, and it comes first. New accesses are to the counter. -/
structure Shares (config : Config) (p q : Program) : Prop where
  wellFormed : q.WellFormed
  grows : p.ops.size ≤ q.ops.size
  order : q.body.filter (· < p.ops.size) = p.body.filter q.isLive
  symbols : ∀ id op, p.ops.size ≤ id → q.op? id = some op → op.kind.definesSymbol = true →
    q.body.head? = some id ∧ op.kind = config.counterStmt.kind
  accesses : ∀ id op sym, p.ops.size ≤ id → q.op? id = some op → op.kind = .getGlobal sym →
    sym = config.stateSymbol ∧
      ∃ v, op.results = [v] ∧ q.typeOf v = .ok (Counter.cellTy config.counterBits)

section

variable {config : Config} {p q : Program}

theorem Shares.refl (wf : p.WellFormed) : Shares config p p where
  wellFormed := wf
  grows := Nat.le_refl _
  order := by
    refine List.filter_congr fun id mem => ?_
    obtain ⟨op, found, -⟩ := wf.inside none p.body rfl id mem
    simp [Program.op?_lt found, Program.isLive, found]
  symbols id op new found := absurd (Program.op?_lt found) (Nat.not_lt_of_le new)
  accesses id op sym new found := absurd (Program.op?_lt found) (Nat.not_lt_of_le new)

/-- An operation of the body of `p` is in the body of `q` if it is still there. -/
theorem Shares.mem_body (shares : Shares config p q) {id : OpId} (mem : id ∈ p.body)
    (live : q.isLive id = true) : id ∈ q.body := by
  have both : id ∈ q.body.filter (· < p.ops.size) := by
    rw [shares.order]
    exact List.mem_filter.mpr ⟨mem, live⟩
  exact List.mem_of_mem_filter both

theorem Shares.withCounter (shares : Shares config p q) (wf : p.WellFormed) (loc : Option Loc) :
    Shares config p (q.withCounter config loc) := by
  cases defined : q.lookupSymbol? config.stateSymbol with
  | some d =>
    rw [Program.withCounter_of_some defined]
    exact shares
  | none =>
    have body : (q.withCounter config loc).body = q.ops.size :: q.body := by
      rw [Program.body_withCounter, defined]
      rfl
    have types : ∀ v ty, q.typeOf v = .ok ty → (q.withCounter config loc).typeOf v = .ok ty := by
      intro v ty typed
      rw [Program.withCounter_of_none defined]
      exact Program.types_place_old typed _ _ _ _
    constructor
    · exact shares.wellFormed.withCounter config loc
    · rw [Program.withCounter_of_none defined, Program.size_ops_place]
      exact Nat.le_add_right_of_le shares.grows
    · rw [body, List.filter_cons_of_neg (by simpa using shares.grows), shares.order]
      refine List.filter_congr fun id mem => ?_
      obtain ⟨op, found, -⟩ := wf.inside none p.body rfl id mem
      rw [Program.withCounter_of_none defined,
        Program.isLive_place (Nat.lt_of_lt_of_le (Program.op?_lt found) shares.grows)]
    · intro id op new found defines
      rcases Program.op?_of_withCounter found with ⟨old, inside, here, rfl⟩ | ⟨-, rfl, rfl⟩
      · -- a new symbol would be the counter, but there is none
        obtain ⟨isFirst, sameKind⟩ := shares.symbols id old new here defines
        have found : (q.lookupSymbol? config.stateSymbol).isSome = true :=
          Program.lookupSymbol?_isSome_iff.mpr ⟨id, List.mem_of_head? isFirst, old, here, by
            rw [sameKind]
            exact Counter.defines_counterStmt config⟩
        rw [defined] at found
        cases found
      · exact ⟨by rw [body]; rfl, rfl⟩
    · intro id op sym new found access
      rcases Program.op?_of_withCounter found with ⟨old, inside, here, rfl⟩ | ⟨-, -, rfl⟩
      · obtain ⟨same, v, results, typed⟩ := shares.accesses id old sym new here access
        exact ⟨same, v, results, types v _ typed⟩
      · cases access

theorem Shares.exchange (shares : Shares config p q) (wf : p.WellFormed) {id : OpId} {op : Op}
    (found : q.op? id = some op) {front back : List OpId}
    (held : q.region op.parent = .ok (front ++ id :: back)) (parts : StateUpdate.Parts)
    (old new : ValueId) :
    Shares config p (q.exchange id op front.length
      (StateUpdate.block config.stateSymbol config.wide parts q.values.size) old new) := by
  have numbered := StateUpdate.numbered_block config.stateSymbol config.wide parts q.values.size
  constructor
  · exact shares.wellFormed.exchange found ⟨_, held⟩
  · rw [Program.size_ops_exchange]
    exact Nat.le_add_right_of_le shares.grows
  · rw [Program.filter_body_exchange shares.wellFormed found held shares.grows, shares.order,
      List.filter_filter]
    refine List.filter_congr fun other mem => ?_
    obtain ⟨before, foundBefore, -⟩ := wf.inside none p.body rfl other mem
    rw [Bool.eq_iff_iff, Bool.and_eq_true, decide_eq_true_eq]
    constructor
    · rintro ⟨apart, live⟩
      exact Program.isLive_exchange shares.wellFormed found ⟨_, held⟩ (shares.mem_body mem live) apart
        _ _ _ _
    · intro live
      obtain ⟨kept, here⟩ := Program.isLive_iff.mp live
      obtain ⟨apart, source⟩ := Program.op?_of_exchange shares.wellFormed found ⟨_, held⟩ numbered here
      rcases source with ⟨old, -, foundOld, -⟩ | ⟨since, -⟩
      · exact ⟨apart, Program.isLive_iff.mpr ⟨old, foundOld⟩⟩
      · exact absurd (Nat.lt_of_lt_of_le (Program.op?_lt foundBefore) shares.grows)
          (Nat.not_lt_of_le since)
  · intro other kept since here defines
    obtain ⟨apart, source⟩ := Program.op?_of_exchange shares.wellFormed found ⟨_, held⟩ numbered here
    rcases source with ⟨before, inside, foundBefore, rfl⟩ | ⟨-, s, mem, inside, rfl⟩
    · obtain ⟨isFirst, sameKind⟩ := shares.symbols other before since foundBefore defines
      exact ⟨Program.head?_body_exchange shares.wellFormed held isFirst apart, sameKind⟩
    · have silent := (StateUpdate.isStep_block mem).silent
      exact absurd (defines.symm.trans silent) (by simp)
  · intro other kept sym since here access
    obtain ⟨-, source⟩ := Program.op?_of_exchange shares.wellFormed found ⟨_, held⟩ numbered here
    rcases source with ⟨before, inside, foundBefore, rfl⟩ | ⟨-, s, mem, inside, rfl⟩
    · obtain ⟨same, v, results, typed⟩ := shares.accesses other before sym since foundBefore access
      refine ⟨same, v, results, ?_⟩
      rw [Program.typeOf_exchange]
      exact Program.types_place_old typed _ _ _ _
    · obtain ⟨same, results⟩ := StateUpdate.results_of_getGlobal mem access
      refine ⟨same, q.values.size, by simp [Op.replaceUse, Stmt.defs, results], ?_⟩
      rw [Program.typeOf_exchange]
      refine Program.types_place numbered _ _ (List.mem_flatMap.mpr ⟨s, mem, ?_⟩)
      rw [results]
      exact List.mem_singleton_self _

/-- Only with a valid configuration is a program changed. -/
theorem validate_of_lower_ne (changed : (lower config p).program ≠ p) : config.validate = .ok () := by
  cases valid : config.validate with
  | ok done => rfl
  | error reason =>
    have same : (lower config p).program = p := by simp [lower, valid]
    exact absurd same changed

theorem Expands.shares (wf : p.WellFormed) {ids : List OpId} (expands : Expands config p ids q) :
    Shares config p q := by
  induction expands with
  | nil => exact .refl wf
  | @snoc q r ids id events front update last ih =>
    obtain ⟨op, found, -⟩ := StateUpdate.isStateUpdate_iff.mp (List.mem_filter.mp update).2
    obtain ⟨parts, result, event, before, after, -, -, held, expanded⟩ :=
      StateUpdate.expand_eq_exchange ih.wellFormed found (StateUpdate.refusal?_of_expand last)
    rw [last] at expanded
    cases expanded
    have shares := (ih.withCounter wf op.loc).exchange wf (q.op?_withCounter config op.loc found) held
      parts result (StateUpdate.blockResult config.wide parts q.values.size)
    rw [Program.values_withCounter] at shares
    exact shares

/-- After an expansion the name of the counter is defined. -/
theorem Expands.lookupSymbol?_isSome (wf : p.WellFormed) {ids : List OpId}
    (expands : Expands config p ids q) (some : ids ≠ []) :
    (q.lookupSymbol? config.stateSymbol).isSome = true := by
  cases expands with
  | nil => exact absurd rfl some
  | @snoc q r ids id events front update last =>
    obtain ⟨op, found, kind⟩ := StateUpdate.isStateUpdate_iff.mp (List.mem_filter.mp update).2
    have wfFront := (front.shares wf).wellFormed
    obtain ⟨parts, result, event, before, after, -, -, held, expanded⟩ :=
      StateUpdate.expand_eq_exchange wfFront found (StateUpdate.refusal?_of_expand last)
    rw [last] at expanded
    cases expanded
    refine Program.lookupSymbol?_exchange (wfFront.withCounter config op.loc)
      (q.op?_withCounter config op.loc found) held ?_ ?_ Program.lookupSymbol?_withCounter
    · rw [Program.values_withCounter]
      exact StateUpdate.numbered_block _ _ _ _
    · rw [kind]
      rfl

theorem Expands.eq_of_nil {ids : List OpId} (expands : Expands config p ids q) (none : ids = []) :
    q = p := by
  cases expands with
  | nil => rfl
  | snoc => simp at none

variable {ids : List OpId}

/-- The counter of a program that had none is the first operation. -/
theorem Shares.exists_counter (shares : Shares config p q) (keeps : p.Keeps config q ids)
    (undefined : p.lookupSymbol? config.stateSymbol = none)
    (defined : (q.lookupSymbol? config.stateSymbol).isSome = true) :
    ∃ cell op, p.ops.size ≤ cell ∧ q.body.head? = some cell ∧ q.op? cell = some op ∧
      op.kind = config.counterStmt.kind ∧ q.lookupSymbol? config.stateSymbol = some cell := by
  obtain ⟨cell, isCell⟩ := Option.isSome_iff_exists.mp defined
  obtain ⟨op, found, defines⟩ := Program.op?_of_lookupSymbol? isCell
  have new : p.ops.size ≤ cell := by
    by_contra old
    -- an old operation that defines the name would have done so in `p`
    have mem : cell ∈ p.body.filter q.isLive := by
      rw [← shares.order]
      exact List.mem_filter.mpr ⟨List.mem_of_find?_eq_some isCell, by simpa using old⟩
    rcases keeps.news cell op found with before | ⟨since, -⟩
    · obtain ⟨former, foundFormer⟩ := Option.isSome_iff_exists.mp before
      have here : cell ∉ ids := by
        intro gone
        rw [(keeps.gone cell gone).2] at found
        cases found
      obtain ⟨kept, foundKept, same⟩ := keeps.ops cell former foundFormer here
      rw [found] at foundKept
      cases foundKept
      have still : (p.lookupSymbol? config.stateSymbol).isSome = true :=
        Program.lookupSymbol?_isSome_iff.mpr ⟨cell, List.mem_of_mem_filter mem, former, foundFormer,
          by rw [← same.kind]; exact defines⟩
      rw [undefined] at still
      cases still
    · exact old since
  have definesSymbol : op.kind.definesSymbol = true := (Bool.and_eq_true_iff.mp defines).1
  obtain ⟨isFirst, kind⟩ := shares.symbols cell op new found definesSymbol
  exact ⟨cell, op, new, isFirst, found, kind, isCell⟩

/-- If the name of the counter was defined, then nothing new defines a symbol. -/
theorem Shares.silent (shares : Shares config p q) (keeps : p.Keeps config q ids) {d : OpId}
    (defined : p.lookupSymbol? config.stateSymbol = some d) {id : OpId} {op : Op}
    (new : p.ops.size ≤ id) (found : q.op? id = some op) : op.kind.definesSymbol = false := by
  rw [Bool.eq_false_iff]
  intro defines
  obtain ⟨isFirst, kind⟩ := shares.symbols id op new found defines
  have first := Program.lookupSymbol?_of_head? isFirst found
    (show op.kind.defines config.stateSymbol = true by
      rw [kind]
      exact Counter.defines_counterStmt config)
  rw [keeps.symbols config.stateSymbol d defined] at first
  cases first
  obtain ⟨old, foundOld, -⟩ := Program.op?_of_lookupSymbol? defined
  exact Nat.not_lt_of_le new (Program.op?_lt foundOld)

end

end Lowering

open Lowering in
/-- All state updates share one cell. If a lowering changes a program at all, then either no operation
of its body defined the name of the counter, and the counter is a new hidden cell with the seed that
comes first and is the only new operation that defines a symbol. Or the first definition stays what and
where it was, and nothing new defines a symbol. All new accesses to cells are to the counter. -/
theorem lower_counterCell {file text : String} {p : Program}
    (read : Program.ofText file text = .ok p) (config : Config)
    (changed : (lower config p).program ≠ p) :
    let q := (lower config p).program
    ((∀ id ∈ p.body, ∀ op, p.op? id = some op → op.kind.defines config.stateSymbol = false) →
      ∃ cell op, p.ops.size ≤ cell ∧ q.body.head? = some cell ∧ q.op? cell = some op ∧
        op.kind = .global ⟨config.stateSymbol, .memref (.signless config.counterBits), config.seed,
          .hidden, false⟩ ∧
        (∀ id other, p.ops.size ≤ id → q.op? id = some other → other.kind.definesSymbol = true →
          id = cell) ∧
        q.lookupSymbol? config.stateSymbol = some cell) ∧
    (∀ d op, p.lookupSymbol? config.stateSymbol = some d → p.op? d = some op →
      (∀ id other, p.ops.size ≤ id → q.op? id = some other → other.kind.definesSymbol = false) ∧
      q.lookupSymbol? config.stateSymbol = some d ∧
      (∃ kept, q.op? d = some kept ∧ kept.kind = op.kind) ∧
      q.body.filter (· < p.ops.size) = p.body.filter q.isLive) ∧
    ∀ id op sym, p.ops.size ≤ id → q.op? id = some op → op.kind = .getGlobal sym →
      sym = config.stateSymbol ∧
        ∃ v, op.results = [v] ∧ q.typeOf v = .ok (.memref (.signless config.counterBits)) := by
  intro q
  obtain ⟨o, isText⟩ := Program.exists_isText_of_ofText read
  have wf : p.WellFormed := Program.wellFormed_of_build isText.numbered isText.built
  obtain ⟨ids, expands⟩ := exists_expands_lower (ready_of_isText isText) config
  have keeps := expands.keeps isText.represents
  have shares := expands.shares wf
  refine ⟨fun undefined => ?_, fun d op defined found => ?_, shares.accesses⟩
  · have none := Program.lookupSymbol?_eq_none_iff.mpr undefined
    have defined := expands.lookupSymbol?_isSome wf fun nil => changed (expands.eq_of_nil nil)
    obtain ⟨cell, op, new, isFirst, found, kind, isCell⟩ := shares.exists_counter keeps none defined
    refine ⟨cell, op, new, isFirst, found, ?_, fun id other since here defines => ?_, isCell⟩
    · have fits := (Config.validate_eq_ok.mp (validate_of_lower_ne changed)).2.2
      rw [kind, Config.counterStmt, truncate_of_lt fits]
      rfl
    · have first := (shares.symbols id other since here defines).1
      rw [isFirst] at first
      exact (Option.some.inj first).symm
  · have still := keeps.symbols config.stateSymbol d defined
    have here : d ∉ ids := by
      intro gone
      obtain ⟨kept, foundKept, -⟩ := Program.op?_of_lookupSymbol? still
      rw [(keeps.gone d gone).2] at foundKept
      cases foundKept
    obtain ⟨kept, foundKept, same⟩ := keeps.ops d op found here
    exact ⟨fun id other => shares.silent keeps defined, still, ⟨kept, foundKept, same.kind⟩,
      shares.order⟩

/-- The second state update is refused. The first one is in the body, and the counter comes before
it. -/
theorem lower_counterCell_refused :
    ∃ p cell op, Program.ofText "in" "%d = arith.constant \x7bvalue = 3\x7d : i32
      %a = mhlo.rng_get_and_update_state %d : tensor<2xui32>
      func.func @f(%e: i32) \x7b
      %b = mhlo.rng_get_and_update_state %e : tensor<5xui32>\x7d" = .ok p ∧
      (lower {} p).program.op? 1 = none ∧ (lower {} p).program.isLive 3 = true ∧
      (lower {} p).program.body.head? = some cell ∧ (lower {} p).program.op? cell = some op ∧
      op.kind = .global ⟨"rng_state", .memref (.signless 128), 0x7012395, .hidden, false⟩ ∧
      (lower {} p).program.lookupSymbol? "rng_state" = some cell := by
  obtain ⟨p, read, free, live, gone, left⟩ :
      ∃ p, Program.ofText "in" "%d = arith.constant \x7bvalue = 3\x7d : i32
      %a = mhlo.rng_get_and_update_state %d : tensor<2xui32>
      func.func @f(%e: i32) \x7b
      %b = mhlo.rng_get_and_update_state %e : tensor<5xui32>\x7d" = .ok p ∧
      p.lookupSymbol? "rng_state" = none ∧ p.isLive 1 = true ∧
      (lower {} p).program.op? 1 = none ∧ (lower {} p).program.isLive 3 = true := by
    apply Program.exists_of_chars
    decide +kernel
  have changed : (lower {} p).program ≠ p := by
    intro same
    rw [same] at gone
    simp [Program.isLive, gone] at live
  obtain ⟨cell, op, -, isFirst, found, kind, -, isCell⟩ :=
    (lower_counterCell read {} changed).1 (Program.lookupSymbol?_eq_none_iff.mp free)
  exact ⟨p, cell, op, read, gone, left, isFirst, found, kind, isCell⟩

end RngLowering
