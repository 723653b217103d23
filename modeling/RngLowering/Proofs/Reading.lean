import RngLowering.Program.Reader
import RngLowering.Proofs.Legible
import RngLowering.Proofs.Placement

set_option autoImplicit false

namespace RngLowering.Reader

def AllProper (ts : Tokens) : Prop := ∀ t ∈ ts, t.token.Proper

theorem AllProper.mono {ts rest : Tokens} (proper : AllProper ts) (part : rest ⊆ ts) :
    AllProper rest :=
  fun t mem => proper t (part mem)

@[grind =] theorem allProper_cons {t : PlacedToken} {rest : Tokens} :
    AllProper (t :: rest) ↔ t.token.Proper ∧ AllProper rest := by
  simp [AllProper]

theorem expect_subset {wanted : Token} {ts rest : Tokens} (read : expect wanted ts = .ok rest) :
    rest ⊆ ts := by
  unfold expect at read
  grind

theorem typeOfToken_proper {t : PlacedToken} {ty : Ty} (read : typeOfToken t = .ok ty) :
    ty.Proper := by
  unfold typeOfToken at read
  split at read
  · split at read
    · cases read
      exact Ty.proper_of_ofText? (by assumption)
    · cases read
  · cases read

theorem resultNames_nonempty {ts rest : Tokens} {names : List String}
    (read : resultNames ts = .ok (names, rest)) : rest ⊆ ts ∧ names ≠ [] := by
  fun_induction resultNames ts generalizing names <;> grind

theorem operandList_inScope {scope : List (String × ValueId)} {line : Nat} {ts rest : Tokens}
    {values : List ValueId} (read : operandList scope line ts = .ok (values, rest)) :
    rest ⊆ ts ∧ ∀ v ∈ values, ∃ name, scope.lookup name = some v := by
  fun_induction operandList scope line ts generalizing values <;> grind

theorem typeList_proper {line : Nat} {ts rest : Tokens} {types : List Ty}
    (read : typeList line ts = .ok (types, rest)) : rest ⊆ ts ∧ ∀ ty ∈ types, ty.Proper := by
  fun_induction typeList line ts generalizing types <;> grind [typeOfToken_proper]

theorem attrValue_legible {key : String} {t : PlacedToken} {value : Attr}
    (word : IsWord key.toList) (proper : t.token.Proper) (read : attrValue key t = .ok value) :
    AttrLegible (key, value) := by
  unfold attrValue at read
  split at read
  · rename_i same
    cases read
    rw [same] at proper
    exact attrLegible_int word proper
  · rename_i same
    cases read
    rw [same] at proper
    exact attrLegible_str word proper
  · cases read

theorem attrList_legible {ts rest : Tokens} {attrs : List (String × Attr)} (proper : AllProper ts)
    (read : attrList ts = .ok (attrs, rest)) :
    rest ⊆ ts ∧ ∀ attr ∈ attrs, AttrLegible attr := by
  fun_induction attrList ts generalizing attrs <;>
    grind [Token.Proper, attrValue_legible, attrLegible_flag]

theorem paramList_proper {ts rest : Tokens} {params : List Param}
    (read : paramList ts = .ok (params, rest)) :
    rest ⊆ ts ∧ ∀ param ∈ params, param.ty.Proper := by
  fun_induction paramList ts generalizing params <;> grind [typeOfToken_proper]

/-- Without names of results, what follows begins with the name of the operation. -/
theorem results_subset {ts rest : Tokens} {names : List String}
    (read : results ts = .ok (names, rest)) : rest ⊆ ts ∧ (names = [] → rest = ts) := by
  unfold results at read
  grind [→ resultNames_nonempty, → expect_subset]

theorem opName_word {ts rest : Tokens} {name : String} {line : Nat} (proper : AllProper ts)
    (read : opName ts = .ok ((name, line), rest)) :
    rest ⊆ ts ∧ IsWord name.toList ∧ '.' ∈ name.toList ∧
      (startsFunction ts = false → name ≠ "func.func") := by
  cases ts with
  | nil => cases read
  | cons t more =>
    have properHead : t.token.Proper := proper t (by simp)
    simp only [opName] at read
    split at read
    · rename_i word token
      split at read
      · rename_i dotted
        cases read
        rw [token] at properHead
        refine ⟨by simp, properHead, by simpa using dotted, ?_⟩
        rintro other rfl
        simp [startsFunction, token] at other
      · cases read
    · cases read

theorem symbolOn_name (line : Nat) {ts : Tokens} (proper : AllProper ts) :
    (symbolOn line ts).2 ⊆ ts ∧ ∀ sym, (symbolOn line ts).1 = some sym → IsName sym.toList := by
  unfold symbolOn nextOn
  cases ts with
  | nil => simp
  | cons t rest =>
    have properHead : t.token.Proper := proper t (by simp)
    dsimp only
    split
    · rename_i sym here
      split at here
      · rw [Option.some.inj here] at properHead
        exact ⟨by simp, fun other same => Option.some.inj same ▸ properHead⟩
      · cases here
    · exact ⟨by simp, fun sym absent => by cases absent⟩

theorem operandsOn_inScope {scope : List (String × ValueId)} {line : Nat} {ts rest : Tokens}
    {values : List ValueId} (read : operandsOn scope line ts = .ok (values, rest)) :
    rest ⊆ ts ∧ ∀ v ∈ values, ∃ name, scope.lookup name = some v := by
  unfold operandsOn at read
  grind [→ operandList_inScope]

theorem attrsOn_legible {line : Nat} {ts rest : Tokens} {attrs : List (String × Attr)}
    (proper : AllProper ts) (read : attrsOn line ts = .ok (attrs, rest)) :
    rest ⊆ ts ∧ ∀ attr ∈ attrs, AttrLegible attr := by
  have tail : ts.tail ⊆ ts := fun t => List.mem_of_mem_tail
  unfold attrsOn at read
  split at read
  · split at read
    · rename_i more inTail
      cases read
      exact ⟨fun t mem => tail (by simp [inTail, mem]), by simp⟩
    · obtain ⟨part, legible⟩ := attrList_legible (proper.mono tail) read
      exact ⟨List.Subset.trans part tail, legible⟩
  · cases read
    exact ⟨fun t mem => mem, by simp⟩

theorem typesOn_proper {line : Nat} {ts rest : Tokens} {types : List Ty}
    (read : typesOn line ts = .ok (types, rest)) : rest ⊆ ts ∧ ∀ ty ∈ types, ty.Proper := by
  have tail : ts.tail ⊆ ts := fun t => List.mem_of_mem_tail
  unfold typesOn at read
  split at read
  · obtain ⟨part, proper⟩ := typeList_proper read
    exact ⟨List.Subset.trans part tail, proper⟩
  · cases read
    exact ⟨fun t mem => mem, by simp⟩

/-- A written operation that stands for a statement. -/
structure OpText.Legible (form : OpText) (scope : List (String × ValueId)) : Prop where
  name : IsWord form.name.toList
  dotted : '.' ∈ form.name.toList
  symbol : ∀ sym, form.sym = some sym → IsName sym.toList
  operands : ∀ v ∈ form.operands, v ∈ scope.map Prod.snd
  attrs : ∀ attr ∈ form.attrs, AttrLegible attr
  types : ∀ ty ∈ form.types, ty.Proper

theorem mem_of_lookup {scope : List (String × ValueId)} {name : String} {v : ValueId}
    (found : scope.lookup name = some v) : v ∈ scope.map Prod.snd := by
  obtain ⟨front, back, rfl, -⟩ := List.lookup_eq_some_iff.mp found
  simp

theorem opText_legible {scope : List (String × ValueId)} {ts rest : Tokens} {form : OpText}
    (proper : AllProper ts) (read : opText scope ts = .ok (form, rest)) :
    rest ⊆ ts ∧ form.Legible scope ∧
      (startsFunction ts = false → form.name = "func.func" → form.results ≠ []) := by
  obtain ⟨⟨names, afterResults⟩, readResults, read⟩ := bind_eq_ok.1 read
  obtain ⟨⟨⟨name, line⟩, afterName⟩, readName, read⟩ := bind_eq_ok.1 read
  obtain ⟨⟨values, afterOperands⟩, readOperands, read⟩ := bind_eq_ok.1 read
  obtain ⟨⟨attrs, afterAttrs⟩, readAttrs, read⟩ := bind_eq_ok.1 read
  obtain ⟨⟨types, afterTypes⟩, readTypes, read⟩ := bind_eq_ok.1 read
  cases read
  obtain ⟨partResults, noResults⟩ := results_subset readResults
  have properName := proper.mono partResults
  obtain ⟨partName, word, dotted, other⟩ := opName_word properName readName
  have properSymbol := properName.mono partName
  obtain ⟨partSymbol, symbol⟩ := symbolOn_name line properSymbol
  have properOperands := properSymbol.mono partSymbol
  obtain ⟨partOperands, inScope⟩ := operandsOn_inScope readOperands
  have properAttrs := properOperands.mono partOperands
  obtain ⟨partAttrs, legible⟩ := attrsOn_legible properAttrs readAttrs
  obtain ⟨partTypes, properTypes⟩ := typesOn_proper readTypes
  refine ⟨?_, ⟨word, dotted, symbol, ?_, legible, properTypes⟩, ?_⟩
  · intro t mem
    exact partResults (partName (partSymbol (partOperands (partAttrs (partTypes mem)))))
  · intro v used
    obtain ⟨key, found⟩ := inScope v used
    exact mem_of_lookup found
  · intro notFunction isFunc none
    rw [noResults none] at other
    exact other notFunction isFunc

theorem bindAll_values {scope after : List (String × ValueId)}
    {bindings : List (String × Nat × ValueId)} (bound : bindAll scope bindings = .ok after) :
    after.map Prod.snd = (bindings.map (·.2.2)).reverse ++ scope.map Prod.snd := by
  induction bindings generalizing scope with
  | nil =>
    cases bound
    simp
  | cons head rest ih =>
    obtain ⟨name, line, value⟩ := head
    simp only [bindAll] at bound
    split at bound
    · cases bound
    · rw [ih bound]
      simp

theorem atLine_eq_ok {α : Type} {line : Nat} {outcome : Except GrammarFault α} {a : α}
    (done : atLine line outcome = .ok a) : outcome = .ok a := by
  cases outcome with
  | ok b =>
    cases done
    rfl
  | error fault => cases done

/-- The results of an operation are as many as its result types. -/
theorem resultTypes_cases {kind : OpKind} {name : String} {results : List String}
    {types found : List Ty} (read : OpForm.resultTypes kind name results types = .ok found) :
    found.length = results.length ∧ ((∃ cell, kind = .global cell) ∧ found = [] ∨
      (∀ cell, kind ≠ .global cell) ∧ found = types) := by
  unfold OpForm.resultTypes at read
  split at read
  · split at read
    · rename_i empty
      cases read
      rw [List.isEmpty_iff.mp empty]
      exact ⟨rfl, Or.inl ⟨⟨_, rfl⟩, rfl⟩⟩
    · cases read
  · rename_i notGlobal
    split at read
    · rename_i count
      cases read
      exact ⟨count.symm, Or.inr ⟨notGlobal, rfl⟩⟩
    · cases read

theorem OpText.Legible.stmt {form : OpText} {scope : List (String × ValueId)}
    (legible : form.Legible scope) {kind : OpKind} {types : List Ty}
    (isKind : OpForm.kindOf form.name form.sym form.attrs form.types = .ok kind)
    (typed : OpForm.resultTypes kind form.name form.results form.types = .ok types)
    (apart : form.name = "func.func" → form.results ≠ []) {results : List (ValueId × Ty)}
    (same : results.map Prod.snd = types) : Stmt.Legible ⟨kind, form.operands, results⟩ := by
  obtain ⟨count, typesCases⟩ := resultTypes_cases typed
  have length : results.length = form.results.length := by
    rw [← count, ← same, List.length_map]
  have name := name_of_kindOf isKind
  have written : Stmt.writtenTypes ⟨kind, form.operands, results⟩ = form.types := by
    rcases typesCases with ⟨⟨cell, rfl⟩, -⟩ | ⟨notGlobal, all⟩
    · exact (types_of_kindOf_global isKind).symm
    · unfold Stmt.writtenTypes
      split
      · rename_i cell isGlobal
        exact absurd isGlobal (notGlobal cell)
      · exact same.trans all
  exact {
    kind := by rw [written]; exact kindOf_self isKind
    results := by
      rintro cell rfl
      rcases typesCases with ⟨-, none⟩ | ⟨notGlobal, -⟩
      · rw [none, List.map_eq_nil_iff] at same
        exact same
      · exact absurd rfl (notGlobal cell)
    name := by rw [name]; exact legible.name
    dotted := by rw [name]; exact legible.dotted
    apart := by
      intro isFunc none
      rw [name] at isFunc
      refine apart isFunc (List.length_eq_zero_iff.mp ?_)
      rw [← length]
      exact List.length_eq_zero_iff.mpr none
    symbol := fun sym found => legible.symbol sym (symbol_of_kindOf isKind found)
    attrs := attrLegible_of_kindOf isKind legible.attrs
    types := by rw [written]; exact legible.types }

/-- An operation was read into a region: one statement was added to it. -/
structure ReadsStmt (parent : Option OpId) (state after : State) (s : Stmt) : Prop where
  legible : s.Legible
  closed : s.Scoped (state.scope.map Prod.snd)
  numbered : NumberedFrom state.program.values.size s.defs
  scope : after.scope.map Prod.snd = s.scopeAfter (state.scope.map Prod.snd)
  program : after.program.eraseLocs = state.program.eraseLocs.addStmt parent s

theorem placeOp_readsStmt {file : String} {parent : Option OpId} {start : Pos}
    {state after : State} {form : OpText} (legible : form.Legible state.scope)
    (apart : form.name = "func.func" → form.results ≠ [])
    (placed : placeOp file parent start state form = .ok after) :
    ∃ s, ReadsStmt parent state after s := by
  obtain ⟨kind, readKind, placed⟩ := bind_eq_ok.1 placed
  obtain ⟨types, readTypes, placed⟩ := bind_eq_ok.1 placed
  have isKind := atLine_eq_ok readKind
  have typed := atLine_eq_ok readTypes
  simp only at placed
  split at placed
  · cases placed
  · rename_i pushedId program pushed
    obtain ⟨scope, bound, placed⟩ := bind_eq_ok.1 placed
    cases placed
    obtain ⟨region, found⟩ := Program.region_of_push pushed
    obtain ⟨grown, grows, erased⟩ := Program.push_eq found kind form.operands
      (some ⟨file, start.line, start.col⟩) types
    rw [grows] at pushed
    cases pushed
    have length : (state.program.nextValues types.length).length = types.length := by
      simp [Program.nextValues]
    have names : form.results.length = (state.program.nextValues types.length).length := by
      rw [length, (resultTypes_cases typed).1]
    refine ⟨⟨kind, form.operands, (state.program.nextValues types.length).zip types⟩,
      legible.stmt isKind typed apart (List.map_snd_zip (Nat.le_of_eq length.symm)),
      legible.operands, Program.numbered_nextValues _ _, ?_, erased⟩
    have values : (form.results.zip (state.program.nextValues types.length)).map Prod.snd =
        state.program.nextValues types.length := List.map_snd_zip (Nat.le_of_eq names.symm)
    rw [bindAll_values bound, List.map_map, Stmt.scopeAfter, Stmt.defs,
      List.map_fst_zip (Nat.le_of_eq length)]
    nth_rewrite 2 [← values]
    rfl

theorem readOp_readsStmt {file : String} {parent : Option OpId} {state after : State}
    {ts rest : Tokens} (proper : AllProper ts) (notFunction : startsFunction ts = false)
    (read : readOp file parent state ts = .ok (after, rest)) :
    rest ⊆ ts ∧ ∃ s, ReadsStmt parent state after s := by
  cases ts with
  | nil => cases read
  | cons first more =>
    obtain ⟨⟨form, left⟩, readText, read⟩ := bind_eq_ok.1 read
    obtain ⟨placed, place, read⟩ := bind_eq_ok.1 read
    cases read
    obtain ⟨part, legible, apart⟩ := opText_legible proper readText
    exact ⟨part, placeOp_readsStmt legible (apart notFunction) place⟩

theorem ReadsStmt.size_values {parent : Option OpId} {state after : State} {s : Stmt}
    (reads : ReadsStmt parent state after s) :
    after.program.values.size = state.program.values.size + s.defs.length := by
  rw [← Program.values_eraseLocs, reads.program, Program.size_values_addStmt,
    Program.values_eraseLocs]

structure ReadsBody (func : OpId) (state after : State) (body : List Stmt) : Prop where
  legible : ∀ s ∈ body, s.Legible
  closed : Stmt.AllScoped (state.scope.map Prod.snd) body
  numbered : NumberedFrom state.program.values.size (body.flatMap Stmt.defs)
  scope : after.scope.map Prod.snd = Stmt.scopeAfterAll (state.scope.map Prod.snd) body
  program : after.program.eraseLocs =
    body.foldl (Program.addStmt (some func)) state.program.eraseLocs

theorem ReadsBody.nil (func : OpId) (state : State) : ReadsBody func state state [] :=
  ⟨by simp, trivial, NumberedFrom.nil _, rfl, rfl⟩

theorem ReadsBody.cons {func : OpId} {state middle after : State} {s : Stmt} {body : List Stmt}
    (head : ReadsStmt (some func) state middle s) (rest : ReadsBody func middle after body) :
    ReadsBody func state after (s :: body) where
  legible := by
    intro t mem
    rcases List.mem_cons.mp mem with rfl | later
    · exact head.legible
    · exact rest.legible t later
  closed := ⟨head.closed, head.scope ▸ rest.closed⟩
  numbered := by
    rw [List.flatMap_cons, NumberedFrom.append_iff, ← head.size_values]
    exact ⟨head.numbered, rest.numbered⟩
  scope := by
    rw [rest.scope, head.scope]
    rfl
  program := by rw [rest.program, head.program, List.foldl_cons]

theorem functionBody_reads {file : String} {func : OpId} {state after : State} {ts rest : Tokens}
    (proper : AllProper ts) (read : functionBody file func state ts = .ok (after, rest)) :
    rest ⊆ ts ∧ ∃ body, ReadsBody func state after body := by
  fun_induction functionBody file func state ts with
  | case1 => cases read
  | case2 state first more closing =>
    cases read
    exact ⟨by simp, [], ReadsBody.nil func _⟩
  | case3 => cases read
  | case4 => cases read
  | case5 state first more notClosing notFunction middle left readHead ih =>
    obtain ⟨part, s, head⟩ := readOp_readsStmt proper (by simpa using notFunction) readHead
    obtain ⟨partRest, body, reads⟩ := ih (proper.mono part) read
    exact ⟨List.Subset.trans partRest part, s :: body, ReadsBody.cons head reads⟩

structure ReadsItem (state after : State) (item : Item) : Prop where
  legible : item.Legible
  closed : item.Scoped (state.scope.map Prod.snd)
  numbered : NumberedFrom state.program.values.size item.defs
  scope : after.scope.map Prod.snd = item.scopeAfter (state.scope.map Prod.snd)
  program : after.program.eraseLocs = state.program.eraseLocs.addItem item

theorem ReadsItem.size_values {state after : State} {item : Item}
    (reads : ReadsItem state after item) :
    after.program.values.size = state.program.values.size + item.defs.length := by
  rw [← Program.values_eraseLocs, reads.program, Program.size_values_addItem,
    Program.values_eraseLocs]

theorem params_proper {ts rest : Tokens} {list : List Param}
    (read : params ts = .ok (list, rest)) :
    rest ⊆ ts ∧ ∀ param ∈ list, param.ty.Proper := by
  unfold params at read
  grind [→ expect_subset, → paramList_proper]

theorem functionName_isName {ts rest : Tokens} {name : String} (proper : AllProper ts)
    (read : functionName ts = .ok (name, rest)) : rest ⊆ ts ∧ IsName name.toList := by
  cases ts with
  | nil => cases read
  | cons t more =>
    have properHead : t.token.Proper := proper t (by simp)
    simp only [functionName] at read
    split at read
    · rename_i sym token
      cases read
      rw [token] at properHead
      exact ⟨by simp, properHead⟩
    · cases read

/-- Reading the first line of a function adds it to the program, with its parameters in scope. -/
theorem functionHead_reads {file : String} {state inside : State} {func : OpId} {ts rest : Tokens}
    (proper : AllProper ts) (read : functionHead file state ts = .ok ((func, inside), rest)) :
    rest ⊆ ts ∧ ∃ sym params, IsName sym.toList ∧ (∀ param ∈ params, param.2.Proper) ∧
      NumberedFrom state.program.values.size (params.map Prod.fst) ∧
      func = state.program.ops.size ∧ inside.scope.map Prod.snd = Item.paramScope params ∧
      inside.program.eraseLocs = state.program.eraseLocs.addFunc sym params := by
  cases ts with
  | nil => cases read
  | cons first more =>
    obtain ⟨⟨sym, afterName⟩, readName, read⟩ := bind_eq_ok.1 read
    obtain ⟨⟨list, afterParams⟩, readParams, read⟩ := bind_eq_ok.1 read
    obtain ⟨grown, grows, erased⟩ := Program.addFunction_eq state.program sym
      (list.map Param.ty) (some ⟨file, first.pos.line, first.pos.col⟩)
    simp only [grows] at read
    obtain ⟨scope, bound, read⟩ := bind_eq_ok.1 read
    obtain ⟨afterBrace, readBrace, read⟩ := bind_eq_ok.1 read
    cases read
    have properMore : AllProper more := (allProper_cons.mp proper).2
    obtain ⟨partName, isName⟩ := functionName_isName properMore readName
    obtain ⟨partParams, properParams⟩ := params_proper readParams
    have partHead : rest ⊆ more :=
      List.Subset.trans (expect_subset readBrace) (List.Subset.trans partParams partName)
    have length : (state.program.nextValues (list.map Param.ty).length).length = list.length := by
      simp [Program.nextValues]
    refine ⟨List.Subset.trans partHead (List.subset_cons_self _ _), sym, _, isName, ?_,
      Program.numbered_nextValues _ _, rfl, ?_, erased⟩
    · intro param mem
      obtain ⟨source, inList, same⟩ := List.mem_map.mp (List.of_mem_zip mem).2
      rw [← same]
      exact properParams source inList
    · have values : (list.zip (state.program.nextValues (list.map Param.ty).length)).map Prod.snd =
          state.program.nextValues (list.map Param.ty).length :=
        List.map_snd_zip (Nat.le_of_eq length)
      rw [bindAll_values bound, List.map_map, List.map_nil, List.append_nil, Item.paramScope,
        List.map_fst_zip (Nat.le_of_eq (length.trans (List.length_map _).symm))]
      nth_rewrite 2 [← values]
      rfl

theorem readFunction_reads {file : String} {state after : State} {ts rest : Tokens}
    (proper : AllProper ts) (read : readFunction file state ts = .ok (after, rest)) :
    rest ⊆ ts ∧ ∃ item, ReadsItem state after item := by
  obtain ⟨⟨⟨func, inside⟩, left⟩, readHead, read⟩ := bind_eq_ok.1 read
  obtain ⟨partHead, sym, params, isName, properParams, numbered, isLast, scope, program⟩ :=
    functionHead_reads proper readHead
  obtain ⟨part, body, reads⟩ := functionBody_reads (proper.mono partHead) read
  have size : inside.program.values.size =
      state.program.values.size + (params.map Prod.fst).length := by
    rw [← Program.values_eraseLocs, program, Program.size_values_addFunc, List.length_map,
      Program.values_eraseLocs]
  refine ⟨List.Subset.trans part partHead, .func sym params body, ?_⟩
  exact {
    legible := ⟨isName, properParams, reads.legible⟩
    closed := by
      have closed := reads.closed
      rw [scope] at closed
      exact closed
    numbered := by
      rw [Item.defs, NumberedFrom.append_iff, ← size]
      exact ⟨numbered, reads.numbered⟩
    scope := by
      rw [reads.scope, scope]
      rfl
    program := by
      rw [reads.program, program, isLast, ← Program.size_ops_eraseLocs]
      rfl }

theorem readItem_reads {file : String} {state after : State} {ts rest : Tokens}
    (proper : AllProper ts) (read : readItem file state ts = .ok (after, rest)) :
    rest ⊆ ts ∧ ∃ item, ReadsItem state after item := by
  unfold readItem at read
  split at read
  · exact readFunction_reads proper read
  · rename_i notFunction
    obtain ⟨part, s, reads⟩ := readOp_readsStmt proper (by simpa using notFunction) read
    exact ⟨part, .op s, reads.legible, reads.closed, reads.numbered, reads.scope, reads.program⟩

structure ReadsItems (state after : State) (o : Outline) : Prop where
  legible : o.Legible
  closed : o.Scoped (state.scope.map Prod.snd)
  numbered : NumberedFrom state.program.values.size o.defs
  program : after.program.eraseLocs = o.foldl Program.addItem state.program.eraseLocs

theorem ReadsItems.nil (state : State) : ReadsItems state state [] :=
  ⟨by simp [Outline.Legible], trivial, NumberedFrom.nil _, rfl⟩

theorem ReadsItems.cons {state middle after : State} {item : Item} {o : Outline}
    (head : ReadsItem state middle item) (rest : ReadsItems middle after o) :
    ReadsItems state after (item :: o) where
  legible := by
    intro other mem
    rcases List.mem_cons.mp mem with rfl | later
    · exact head.legible
    · exact rest.legible other later
  closed := ⟨head.closed, head.scope ▸ rest.closed⟩
  numbered := by
    rw [Outline.defs_cons, NumberedFrom.append_iff, ← head.size_values]
    exact ⟨head.numbered, rest.numbered⟩
  program := by rw [rest.program, head.program, List.foldl_cons]

theorem readItems_reads {file : String} {wrapped : Bool} {state after : State} {ts rest : Tokens}
    (proper : AllProper ts) (read : readItems file wrapped state ts = .ok (after, rest)) :
    ∃ o, ReadsItems state after o := by
  fun_induction readItems file wrapped state ts with
  | case1 => cases read
  | case2 =>
    cases read
    exact ⟨[], ReadsItems.nil _⟩
  | case3 =>
    cases read
    exact ⟨[], ReadsItems.nil _⟩
  | case4 => cases read
  | case5 state first more notClosing middle left readHead ih =>
    obtain ⟨part, item, head⟩ := readItem_reads proper readHead
    obtain ⟨o, reads⟩ := ih (proper.mono part) read
    exact ⟨item :: o, ReadsItems.cons head reads⟩

theorem wrapper_name {ts rest : Tokens} {p : Program} (proper : AllProper ts)
    (read : wrapper ts = .ok (p, rest)) :
    rest ⊆ ts ∧ ∃ name, IsName name.toList ∧ p = { name } := by
  have default : IsName "module".toList := ⟨by decide, List.all_eq_true.mp (by decide)⟩
  unfold wrapper at read
  grind [→ expect_subset, Token.Proper]

end RngLowering.Reader

namespace RngLowering.Program

/-- What a text stands for: an outline with a name. -/
structure IsText (p : Program) (o : Outline) : Prop where
  name : IsName p.name.toList
  legible : o.Legible
  closed : o.Scoped []
  numbered : NumberedFrom 0 o.defs
  built : p.eraseLocs = build p.name o

theorem isText_of_reads {name : String} (isName : IsName name.toList) {after : Reader.State}
    {o : Outline} (reads : Reader.ReadsItems { program := { name } } after o) :
    after.program.IsText o := by
  have built : after.program.eraseLocs = build name o := by
    rw [reads.program, build]
    simp [eraseLocs]
  have same : after.program.name = name := by
    rw [← name_eraseLocs, built, name_build]
  exact ⟨same ▸ isName, reads.legible, reads.closed, reads.numbered, same ▸ built⟩

theorem exists_isText_of_ofText {file text : String} {p : Program}
    (read : ofText file text = .ok p) : ∃ o, p.IsText o := by
  unfold ofText at read
  split at read
  · cases read
  · rename_i tokens lexed
    have proper : Reader.AllProper tokens := proper_of_tokens lexed
    simp only [Reader.readProgram] at read
    split at read
    · have properRest := (Reader.allProper_cons.mp proper).2
      split at read
      · cases read
      · rename_i program more wrapped
        obtain ⟨⟨state, left⟩, readAll, read⟩ := bind_eq_ok.1 read
        obtain ⟨part, name, isName, rfl⟩ := Reader.wrapper_name properRest wrapped
        obtain ⟨o, reads⟩ := Reader.readItems_reads (properRest.mono part) readAll
        cases left with
        | nil =>
          cases read
          exact ⟨o, isText_of_reads isName reads⟩
        | cons t trailing => cases read
    · obtain ⟨⟨state, left⟩, readAll, read⟩ := bind_eq_ok.1 read
      obtain ⟨o, reads⟩ := Reader.readItems_reads proper readAll
      cases left with
      | nil =>
        cases read
        exact ⟨o, isText_of_reads ⟨by decide, List.all_eq_true.mp (by decide)⟩ reads⟩
      | cons t trailing => cases read

end RngLowering.Program
