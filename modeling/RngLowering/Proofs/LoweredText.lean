import RngLowering.Proofs.Renaming
import RngLowering.Proofs.Verdict

set_option autoImplicit false

namespace RngLowering

theorem Ty.proper_int {ty : IntTy} (valid : ty.isValid = true) : (Ty.int ty).Proper :=
  ⟨valid, by simp [Ty.shape?]⟩

theorem Ty.proper_memref {elem : IntTy} (valid : elem.isValid = true) : (Ty.memref elem).Proper :=
  ⟨valid, by simp [Ty.shape?]⟩

/-- The names of the kinds that carry nothing else can be written, and none is that of functions. -/
theorem plain?_name {name : String} {kind : OpKind} (found : OpKind.plain? name = some kind) :
    IsWord kind.name.toList ∧ '.' ∈ kind.name.toList ∧ kind.name ≠ "func.func" := by
  have listed := List.mem_of_find?_eq_some found
  simp only [List.mem_cons, List.not_mem_nil, or_false] at listed
  rcases listed with rfl | rfl | rfl | rfl | rfl | rfl | rfl | rfl | rfl | rfl | rfl <;>
    exact ⟨isWord_of_chars (by decide) (by decide), by decide, by decide⟩

theorem Stmt.writtenTypes_of_ne {s : Stmt} (other : ∀ cell, s.kind ≠ .global cell) :
    s.writtenTypes = s.types := by
  unfold Stmt.writtenTypes
  split
  · rename_i cell isCell
    exact absurd isCell (other cell)
  · rfl

theorem Stmt.legible_of_plain {s : Stmt} (found : OpKind.plain? s.kind.name = some s.kind)
    (types : ∀ ty ∈ s.types, ty.Proper) : s.Legible := by
  obtain ⟨-, noSymbol, noAttrs, -, notCell, same⟩ := plain?_cases found
  obtain ⟨word, dotted, notFunc⟩ := plain?_name found
  exact {
    kind := by
      rw [noSymbol, noAttrs]
      exact same _
    results := fun cell isCell => absurd isCell (notCell cell)
    name := word
    dotted := dotted
    apart := fun isFunc => absurd isFunc notFunc
    symbol := fun sym found => by
      rw [noSymbol] at found
      cases found
    attrs := fun attr mem => by
      rw [noAttrs] at mem
      cases mem
    types := by
      rw [Stmt.writtenTypes_of_ne notCell]
      exact types }

theorem Stmt.legible_constant {ty : IntTy} (valid : ty.isValid = true) (value : Nat) (v : ValueId) :
    Stmt.Legible ⟨.constant (truncate ty.bits value), [], [(v, .int ty)]⟩ where
  kind := by
    simp [OpForm.kindOf, OpForm.constantKind, OpForm.attr?, OpKind.name, OpKind.attrs,
      Stmt.writtenTypes, Stmt.types, Ty.width, Ty.elem]
  results _ isCell := by cases isCell
  name := show IsWord "arith.constant".toList from isWord_of_chars (by decide) (by decide)
  dotted := show '.' ∈ "arith.constant".toList by decide
  apart _ none := by cases none
  symbol _ found := by cases found
  attrs attr mem := by
    rw [List.mem_singleton.mp mem]
    exact attrLegible_int (isWord_of_chars (by decide) (by decide)) (truncate_lt_wordLimit _ _)
  types ty mem := by
    rw [List.mem_singleton.mp mem]
    exact Ty.proper_int valid

theorem Stmt.legible_getGlobal {sym : String} (isName : IsName sym.toList) {elem : IntTy}
    (valid : elem.isValid = true) (v : ValueId) :
    Stmt.Legible ⟨.getGlobal sym, [], [(v, .memref elem)]⟩ where
  kind := by
    simp [OpForm.kindOf, OpForm.getGlobalKind, OpKind.name, OpKind.symbol?, OpKind.attrs]
  results _ isCell := by cases isCell
  name := show IsWord "memref.get_global".toList from isWord_of_chars (by decide) (by decide)
  dotted := show '.' ∈ "memref.get_global".toList by decide
  apart _ none := by cases none
  symbol _ found := by
    cases found
    exact isName
  attrs _ mem := by cases mem
  types ty mem := by
    rw [List.mem_singleton.mp mem]
    exact Ty.proper_memref valid

/-- A legible statement stays so with other operands. -/
theorem Stmt.legible_rewire {s : Stmt} (legible : s.Legible) (f : ValueId → ValueId) :
    (s.rewire f).Legible :=
  ⟨legible.kind, legible.results, legible.name, legible.dotted, legible.apart, legible.symbol,
    legible.attrs, legible.types⟩

theorem Outline.legible_rewire {o : Outline} (legible : o.Legible) (f : ValueId → ValueId) :
    (Outline.rewire f o).Legible := by
  intro item mem
  obtain ⟨old, inside, rfl⟩ := List.mem_map.mp mem
  have legibleOld := legible old inside
  cases old with
  | op s => exact Stmt.legible_rewire legibleOld f
  | func sym params body =>
    refine ⟨legibleOld.1, legibleOld.2.1, fun s inBody => ?_⟩
    obtain ⟨before, inOld, rfl⟩ := List.mem_map.mp inBody
    exact Stmt.legible_rewire (legibleOld.2.2 before inOld) f

/-- Statements put at a point of a legible outline leave it legible if they are so themselves. -/
theorem Cursor.legible_ahead {c : Cursor} {s : Stmt} (legible : (c.ahead [s]).outline.Legible)
    {more : List Stmt} (each : ∀ t ∈ more, t.Legible) : (c.ahead more).outline.Legible := by
  intro item mem
  cases c with
  | top before after =>
    simp only [Cursor.ahead, Cursor.outline, List.mem_append, List.mem_map] at mem
    rcases mem with early | ⟨t, inside, rfl⟩ | late
    · exact legible item (by simp [Cursor.ahead, Cursor.outline, early])
    · exact each t inside
    · exact legible item (by simp [Cursor.ahead, Cursor.outline, late])
  | inner before sym params front back after =>
    simp only [Cursor.ahead, Cursor.outline, List.mem_append, List.mem_cons] at mem
    rcases mem with early | rfl | late
    · exact legible item (by simp [Cursor.ahead, Cursor.outline, early])
    · obtain ⟨isName, proper, body⟩ := legible (.func sym params (front ++ ([s] ++ back)))
        (by simp [Cursor.ahead, Cursor.outline])
      refine ⟨isName, proper, fun t inside => ?_⟩
      simp only [List.mem_append] at inside
      rcases inside with inFront | inMore | inBack
      · exact body t (by simp [inFront])
      · exact each t inMore
      · exact body t (by simp [inBack])
    · exact legible item (by simp [Cursor.ahead, Cursor.outline, late])

section

variable {config : Config}

theorem Config.wide_isValid (valid : config.validate = .ok ()) : config.wide.isValid = true :=
  IntTy.isValid_iff.mpr (Config.validate_eq_ok.mp valid).2.1

theorem Config.isName_stateSymbol (valid : config.validate = .ok ())
    (chars : ∀ c ∈ config.stateSymbol.toList, Lexer.isNameChar c = true) :
    IsName config.stateSymbol.toList where
  nonempty isNil := by
    obtain ⟨nonempty, -⟩ := Config.validate_eq_ok.mp valid
    have empty : config.stateSymbol.isEmpty = true := by simpa using isNil
    rw [empty] at nonempty
    cases nonempty
  chars := chars

theorem Config.legible_counterStmt (valid : config.validate = .ok ())
    (isName : IsName config.stateSymbol.toList) : config.counterStmt.Legible where
  kind := kindOf_global (truncate_truncate _ _).symm
  results _ _ := rfl
  name := show IsWord "memref.global".toList from isWord_of_chars (by decide) (by decide)
  dotted := show '.' ∈ "memref.global".toList by decide
  apart isFunc := absurd isFunc (show "memref.global" ≠ "func.func" by decide)
  symbol _ found := by
    cases found
    exact isName
  attrs _ mem := attrLegible_global (truncate_lt_wordLimit _ _) mem
  types ty mem := by
    rw [List.mem_singleton.mp mem]
    exact Ty.proper_memref (Config.wide_isValid valid)

namespace StateUpdate

variable {sym : String} {wide : IntTy} {parts : Parts} {s : Stmt}

theorem legible_wordStmts {word : IntTy} (wideValid : wide.isValid = true)
    (wordValid : word.isValid = true) {old : ValueId} {indices : List Nat} {next : ValueId}
    (mem : s ∈ wordStmts wide word old indices next) : s.Legible := by
  induction indices generalizing next with
  | nil => cases mem
  | cons index rest ih =>
    simp only [wordStmts, List.cons_append, List.nil_append, List.mem_cons] at mem
    rcases mem with rfl | rfl | rfl | later
    · exact Stmt.legible_constant wideValid _ _
    · refine Stmt.legible_of_plain rfl fun ty inTypes => ?_
      rw [List.mem_singleton.mp inTypes]
      exact Ty.proper_int wideValid
    · refine Stmt.legible_of_plain rfl fun ty inTypes => ?_
      rw [List.mem_singleton.mp inTypes]
      exact Ty.proper_int wordValid
    · exact ih later

theorem legible_deltaStmts (wideValid : wide.isValid = true) {next : ValueId}
    (mem : s ∈ deltaStmts wide parts next) : s.Legible := by
  have types : ∀ ty ∈ [Ty.int wide], ty.Proper := by
    intro ty inTypes
    rw [List.mem_singleton.mp inTypes]
    exact Ty.proper_int wideValid
  unfold deltaStmts at mem
  split at mem
  · cases mem
  · split at mem <;>
      · rw [List.mem_singleton.mp mem]
        exact Stmt.legible_of_plain rfl types

/-- The statements of a block can be written. -/
theorem legible_block (isName : IsName sym.toList) (wideValid : wide.isValid = true)
    (proper : parts.resultTy.Proper) {n : ValueId} (mem : s ∈ block sym wide parts n) :
    s.Legible := by
  have wordValid : parts.word.isValid = true := proper.elem
  simp only [block, accessStmts, advanceStmts, packStmts, List.mem_append, List.mem_cons,
    List.not_mem_nil, or_false] at mem
  rcases mem with (rfl | rfl) | inDelta | (rfl | rfl) | inWords | rfl | rfl
  · exact Stmt.legible_getGlobal isName wideValid n
  · refine Stmt.legible_of_plain rfl fun ty inTypes => ?_
    rw [List.mem_singleton.mp inTypes]
    exact Ty.proper_int wideValid
  · exact legible_deltaStmts wideValid inDelta
  · refine Stmt.legible_of_plain rfl fun ty inTypes => ?_
    rw [List.mem_singleton.mp inTypes]
    exact Ty.proper_int wideValid
  · refine Stmt.legible_of_plain rfl fun ty inTypes => ?_
    cases inTypes
  · exact legible_wordStmts wideValid wordValid inWords
  · refine Stmt.legible_of_plain rfl fun ty inTypes => ?_
    rw [List.mem_singleton.mp inTypes]
    exact ⟨wordValid, proper.dims⟩
  · refine Stmt.legible_of_plain rfl fun ty inTypes => ?_
    rw [List.mem_singleton.mp inTypes]
    exact proper

end StateUpdate

/-- A step keeps an outline legible. -/
theorem Outline.Step.legible {o after : Outline} (step : Outline.Step config o after)
    (valid : config.validate = .ok ()) (isName : IsName config.stateSymbol.toList)
    (legible : o.Legible) : after.Legible := by
  cases step with
  | create undefined =>
    intro item mem
    rcases List.mem_cons.mp mem with rfl | old
    · exact Config.legible_counterStmt valid isName
    · exact legible item old
  | @expand c s parts r n site =>
    have legibleStmt : s.Legible := Outline.legible_of_mem_stmts legible (c.mem_stmts s)
    have written : s.writtenTypes = [parts.resultTy] := by
      rw [Stmt.writtenTypes_of_ne (by simp [site.proper.kind]), Stmt.types, site.proper.results]
      rfl
    have resultProper : parts.resultTy.Proper := legibleStmt.types _ (by simp [written])
    exact Outline.legible_rewire (Cursor.legible_ahead legible fun t mem =>
      StateUpdate.legible_block isName (Config.wide_isValid valid) resultProper mem) _

end

/-- What a run of steps keeps. -/
theorem Outline.closed_legible_of_steps {config : Config} (valid : config.validate = .ok ())
    (isName : IsName config.stateSymbol.toList) {o after : Outline}
    (steps : Relation.ReflTransGen (Outline.Step config) o after) (closed : o.Closed)
    (legible : o.Legible) : after.Closed ∧ after.Legible := by
  refine ⟨closed_of_steps steps closed, ?_⟩
  induction steps with
  | refl => exact legible
  | tail _ step ih => exact step.legible valid isName ih

/-- A lowered program is read from its text, however the lowering ended. It prints as before and
answers every sequence of calls as before, with the same cells after each. -/
theorem ofText_text_lower {file text : String} {p : Program}
    (read : Program.ofText file text = .ok p) {config : Config} (valid : config.validate = .ok ())
    (chars : ∀ c ∈ config.stateSymbol.toList, Lexer.isNameChar c = true) (copy : String) :
    ∃ q, Program.ofText copy (lower config p).program.text = .ok q ∧
      q.text = (lower config p).program.text ∧
      ∀ calls, (Evaluator.session ⟨q, config⟩ (Machine.ofProgram q) calls).map
          (fun (answer, m) => (answer, m.cells)) =
        (Evaluator.session ⟨(lower config p).program, config⟩
          (Machine.ofProgram (lower config p).program) calls).map
          fun (answer, m) => (answer, m.cells) := by
  obtain ⟨o, isText⟩ := Program.exists_isText_of_ofText read
  obtain ⟨ids, expands⟩ := Lowering.exists_expands_lower (Lowering.ready_of_isText isText) config
  obtain ⟨name, after, rep, steps⟩ := expands.outline isText.represents
  obtain ⟨closed, legible⟩ := Outline.closed_legible_of_steps valid
    (Config.isName_stateSymbol valid chars) steps
    ⟨nodup_of_numbered isText.numbered, isText.closed⟩ isText.legible
  obtain ⟨q, readBack, isTextBack, -, sameText⟩ := Program.exists_isText_text rep closed.nodup
    closed.inScope legible (name ▸ isText.name) copy
  refine ⟨q, readBack, sameText, fun calls => ?_⟩
  have injective : ∀ v ∈ after.defs, ∀ w ∈ after.defs,
      after.defs.idxOf v = after.defs.idxOf w → v = w :=
    fun v inDefs w _ same => (List.idxOf_inj inDefs).mp same
  calc (Evaluator.session ⟨q, config⟩ (Machine.ofProgram q) calls).map
        (fun (answer, m) => (answer, m.cells))
    _ = (after.rename after.defs.idxOf).session config (after.rename after.defs.idxOf).cells
        calls := by
      rw [← Machine.cells_ofProgram isTextBack.represents]
      exact Evaluator.session_outcome isTextBack.represents config _ calls
    _ = after.session config after.cells calls := by
      rw [Outline.session_rename closed.inScope injective, Outline.cells_rename]
    _ = (Evaluator.session ⟨(lower config p).program, config⟩
        (Machine.ofProgram (lower config p).program) calls).map
          fun (answer, m) => (answer, m.cells) := by
      rw [← Machine.cells_ofProgram rep]
      exact (Evaluator.session_outcome rep config _ calls).symm

/-- An 8-bit counter serves the first function. What the second one asks for does not fit it, so that
the lowering fails with the first one lowered. -/
theorem ofText_text_lower_narrow :
    ∃ p q, Program.ofText "in" "func.func @f(%d: si4) \x7b
      %a = mhlo.rng_get_and_update_state %d : tensor<2xui4>
      func.return %a\x7d
      func.func @g(%d: i8) \x7b
      %a = mhlo.rng_get_and_update_state %d : tensor<3xui4>\x7d" = .ok p ∧
      Program.ofText "out" (lower ⟨"s.$1", 8, 200, .full⟩ p).program.text = .ok q ∧
      q.text = (lower ⟨"s.$1", 8, 200, .full⟩ p).program.text ∧
      (Evaluator.session ⟨q, ⟨"s.$1", 8, 200, .full⟩⟩ (Machine.ofProgram q)
          [("f", [9]), ("g", [1]), ("f", [1])]).map (fun (answer, m) => (answer, m.cells)) =
        (Evaluator.session ⟨(lower ⟨"s.$1", 8, 200, .full⟩ p).program, ⟨"s.$1", 8, 200, .full⟩⟩
          (Machine.ofProgram (lower ⟨"s.$1", 8, 200, .full⟩ p).program)
          [("f", [9]), ("g", [1]), ("f", [1])]).map fun (answer, m) => (answer, m.cells) := by
  obtain ⟨p, read, -⟩ : ∃ p, Program.ofText "in" "func.func @f(%d: si4) \x7b
      %a = mhlo.rng_get_and_update_state %d : tensor<2xui4>
      func.return %a\x7d
      func.func @g(%d: i8) \x7b
      %a = mhlo.rng_get_and_update_state %d : tensor<3xui4>\x7d" = .ok p ∧ True := by
    apply Program.exists_of_chars
    decide +kernel
  have valid : Config.validate ⟨"s.$1", 8, 200, .full⟩ = .ok () := by decide
  obtain ⟨q, readBack, sameText, sameAnswers⟩ := ofText_text_lower read valid
    (List.all_eq_true.mp (by decide)) "out"
  exact ⟨p, q, read, readBack, sameText, sameAnswers _⟩

end RngLowering
