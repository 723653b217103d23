import RngLowering.Proofs.Edits
import RngLowering.Proofs.RoundTrip
import RngLowering.Proofs.Scanning
import RngLowering.Proofs.WrittenForm

set_option autoImplicit false

namespace RngLowering

def Pos.Before (first second : Pos) : Prop :=
  first.line < second.line ∨ first.line = second.line ∧ first.col < second.col

def Loc.Before (first second : Loc) : Prop :=
  Pos.Before ⟨first.line, first.col⟩ ⟨second.line, second.col⟩

theorem Pos.Before.trans {first second third : Pos} (left : first.Before second)
    (right : second.Before third) : first.Before third := by
  unfold Before at *
  omega

theorem Pos.before_next (pos : Pos) (c : Char) : pos.Before (pos.next c) := by
  unfold Before next
  split
  · exact .inl (Nat.lt_succ_self _)
  · exact .inr ⟨rfl, Nat.lt_succ_self _⟩

theorem before_placeAfter (before : List Char) {word : List Char} (some : word ≠ []) :
    (placeAfter before).Before (placeAfter (before ++ word)) := by
  induction word generalizing before with
  | nil => exact absurd rfl some
  | cons c rest ih =>
    have step : (placeAfter before).Before (placeAfter (before ++ [c])) := by
      rw [← next_placeAfter]
      exact Pos.before_next _ c
    rw [List.append_cons]
    cases rest with
    | nil =>
      rw [List.append_nil]
      exact step
    | cons d more => exact step.trans (ih _ (by simp))

theorem exists_placeAfter_of_mem {before : List Char} {segments : List Segment} {t : PlacedToken}
    (mem : t ∈ placedTokens before segments) : ∃ text, t.pos = placeAfter (before ++ text) := by
  induction segments generalizing before with
  | nil => cases mem
  | cons s more ih =>
    rcases List.mem_cons.mp mem with rfl | inMore
    · exact ⟨s.gap, rfl⟩
    · obtain ⟨text, place⟩ := ih inMore
      rw [List.append_assoc, List.append_assoc] at place
      exact ⟨_, place⟩

/-- Each token is at a later place than those before it. -/
theorem pairwise_placedTokens (before : List Char) (segments : List Segment) :
    (placedTokens before segments).Pairwise fun first second => first.pos.Before second.pos := by
  induction segments generalizing before with
  | nil => exact .nil
  | cons s more ih =>
    refine .cons (fun t mem => ?_) (ih _)
    obtain ⟨text, place⟩ := exists_placeAfter_of_mem mem
    rw [place, List.append_assoc]
    exact before_placeAfter (before ++ s.gap) (List.append_ne_nil_of_left_ne_nil s.spelled.ne_nil _)

namespace Program

/-- The operations of the arena, without what is nested in them. -/
def marks (p : Program) : List (Option Op) :=
  p.ops.toList.map (Option.map fun op => { op with region := [] })

theorem marks_append (p : Program) (op : Op) (infos : List ValueInfo) :
    (p.append op infos).marks = p.marks ++ [some { op with region := [] }] := by
  simp [marks, append]

theorem marks_modifyRegion (p : Program) (parent : Option OpId) (change : List OpId → List OpId) :
    (p.modifyRegion parent change).marks = p.marks := by
  cases parent with
  | none => rfl
  | some id =>
    refine List.ext_getElem? fun index => ?_
    simp only [marks, modifyRegion, modifyOp, List.getElem?_map, Array.getElem?_toList,
      Array.getElem?_modify]
    by_cases same : id = index
    · rw [if_pos same]
      cases p.ops[index]? with
      | none => rfl
      | some slot => cases slot <;> rfl
    · rw [if_neg same]

theorem marks_of_push {p q : Program} {parent : Option OpId} {op : Op} {types : List Ty} {id : OpId}
    (pushed : p.push parent op types = .ok (id, q)) :
    q.marks = p.marks ++
      [some { op with parent, results := p.nextValues types.length, region := [] }] := by
  obtain ⟨region, found⟩ := region_of_push pushed
  simp only [push, insert, found] at pushed
  cases pushed
  rw [marks_modifyRegion]
  exact marks_append p { op with parent, results := p.nextValues types.length } _

theorem marks_addFunction (p : Program) (sym : String) (types : List Ty) (loc : Option Loc) :
    (p.addFunction sym types loc).2.2.marks = p.marks ++
      [some { kind := .func sym, args := p.nextValues types.length, loc }] :=
  marks_append p _ (argInfos p.ops.size types)

/-- The arena holds the operations of the body in order, each followed by those nested in it. -/
def InOrder (p : Program) : Prop :=
  (p.body.flatMap fun id => id :: p.nested id) = List.range p.ops.size

theorem InOrder.lt {p : Program} (inOrder : p.InOrder) {id : OpId} (mem : id ∈ p.body) :
    id < p.ops.size := by
  rw [← List.mem_range, ← inOrder]
  exact List.mem_flatMap.mpr ⟨id, mem, by simp⟩

/-- An operation without nested ones comes last if it is put at the end of the body. -/
theorem InOrder.append {p : Program} (inOrder : p.InOrder) {op : Op} (empty : op.region = [])
    (infos : List ValueInfo) :
    ((p.append op infos).modifyRegion none (· ++ [p.ops.size])).InOrder := by
  have old : ∀ id ∈ p.body, ((p.append op infos).modifyRegion none (· ++ [p.ops.size])).nested id =
      p.nested id := by
    intro id mem
    rw [nested, op?_modifyRegion, if_neg (by simp), op?_append,
      if_neg (Nat.ne_of_lt (inOrder.lt mem))]
    rfl
  have new : ((p.append op infos).modifyRegion none (· ++ [p.ops.size])).nested p.ops.size = [] := by
    rw [nested, op?_modifyRegion, if_neg (by simp), op?_append, if_pos rfl]
    exact empty
  rw [InOrder, body_modifyRegion, if_pos rfl, size_ops_modifyRegion, size_ops_append, body_append,
    List.flatMap_append, List.range_succ, ← inOrder]
  congr 1
  · exact List.flatMap_congr fun id mem => by rw [old id mem]
  · rw [List.flatMap_singleton, new]

/-- A statement comes last if it is put into the last function of the body. -/
theorem InOrder.addStmt_last {p : Program} (inOrder : p.InOrder) {front : List OpId} {func : OpId}
    (last : p.body = front ++ [func]) (apart : func ∉ front) (live : (p.op? func).isSome = true)
    (s : Stmt) : (p.addStmt (some func) s).InOrder := by
  have inside : func < p.ops.size := inOrder.lt (by simp [last])
  have old : ∀ id ∈ front, (p.addStmt (some func) s).nested id = p.nested id := by
    intro id mem
    have other : some func ≠ some id := by
      rintro ⟨⟩
      exact apart mem
    rw [nested, addStmt, op?_modifyRegion, if_neg other, op?_append,
      if_neg (Nat.ne_of_lt (inOrder.lt (by simp [last, mem])))]
    rfl
  have grown : (p.addStmt (some func) s).nested func = p.nested func ++ [p.ops.size] := by
    obtain ⟨op, found⟩ := Option.isSome_iff_exists.mp live
    rw [nested, addStmt, op?_modifyRegion, if_pos rfl, op?_append, if_neg (Nat.ne_of_lt inside),
      nested, found]
    rfl
  have before := inOrder
  rw [InOrder, last, List.flatMap_append, List.flatMap_singleton] at before
  rw [InOrder, addStmt, body_modifyRegion, if_neg (by simp), size_ops_modifyRegion, size_ops_append,
    body_append, ← addStmt, last, List.flatMap_append, List.flatMap_singleton, grown, List.range_succ,
    ← before, List.append_assoc, List.cons_append]
  congr 1
  exact List.flatMap_congr fun id mem => by rw [old id mem]

theorem InOrder.addStmts {p : Program} (inOrder : p.InOrder) {front : List OpId} {func : OpId}
    (last : p.body = front ++ [func]) (apart : func ∉ front) (live : (p.op? func).isSome = true)
    (body : List Stmt) : (body.foldl (addStmt (some func)) p).InOrder := by
  induction body generalizing p with
  | nil => exact inOrder
  | cons s rest ih =>
    refine ih (inOrder.addStmt_last last apart live s) ?_ ?_
    · rw [addStmt, body_modifyRegion, if_neg (by simp), body_append, last]
    · obtain ⟨op, found⟩ := Option.isSome_iff_exists.mp live
      rw [addStmt, op?_modifyRegion, if_pos rfl, op?_append_of_some found]
      rfl

theorem InOrder.addItem {p : Program} (inOrder : p.InOrder) (item : Item) :
    (p.addItem item).InOrder := by
  cases item with
  | op s => exact inOrder.append rfl _
  | func sym params body =>
    have apart : p.ops.size ∉ p.body := fun mem => Nat.lt_irrefl _ (inOrder.lt mem)
    refine InOrder.addStmts (inOrder.append rfl _) ?_ apart ?_ body
    · rw [body_modifyRegion, if_pos rfl, body_append]
    · rw [op?_modifyRegion, if_neg (by simp), op?_append, if_pos rfl]
      rfl

theorem inOrder_build (name : String) (o : Outline) : (build name o).InOrder := by
  have all : ∀ p : Program, p.InOrder → (o.foldl addItem p).InOrder := by
    induction o with
    | nil => exact fun p inOrder => inOrder
    | cons item rest ih => exact fun p inOrder => ih _ (inOrder.addItem item)
  exact all { name } rfl

/-- The places of a program that was read are in program order. -/
theorem IsText.walk_eq_range {p : Program} {o : Outline} (isText : p.IsText o) :
    p.walk = List.range p.ops.size := by
  have inOrder : p.eraseLocs.InOrder := isText.built ▸ inOrder_build p.name o
  have same : ∀ id, p.eraseLocs.nested id = p.nested id := by
    intro id
    rw [nested, nested, op?_eraseLocs]
    cases p.op? id <;> rfl
  rw [walk_eq isText.represents, ← size_ops_eraseLocs, ← inOrder]
  exact List.flatMap_congr fun id _ => by rw [same]

theorem map_range_marks (p : Program) :
    (List.range p.ops.size).map (fun id => (p.op? id).map fun op => { op with region := [] }) =
      p.marks := by
  refine List.ext_getElem (by simp [marks]) fun index inRange inMarks => ?_
  have inside : index < p.ops.size := by simpa using inRange
  simp [marks, op?, inside]

end Program

/-- The tokens are those of the operation, and it is located at the first of them. -/
def Op.Heads (file : String) (op : Op) (span : Reader.Tokens) : Prop :=
  op.Written (span.map PlacedToken.token) ∧
    ∃ first, span.head? = some first ∧ op.loc = some ⟨file, first.pos.line, first.pos.col⟩

/-- As `Op.Heads`, but a closing brace may come after the tokens of the operation. -/
def Op.Starts (file : String) (op : Op) (span : Reader.Tokens) : Prop :=
  ∃ own closing, span = own ++ closing ∧ op.Heads file own ∧
    (closing = [] ∨ closing.map PlacedToken.token = [.rbrace])

theorem Op.Heads.starts {file : String} {op : Op} {span : Reader.Tokens}
    (heads : op.Heads file span) : op.Starts file span :=
  ⟨span, [], (List.append_nil span).symm, heads, .inl rfl⟩

theorem Op.Heads.starts_closed {file : String} {op : Op} {span : Reader.Tokens}
    (heads : op.Heads file span) {brace : PlacedToken} (closes : brace.token = .rbrace) :
    op.Starts file (span ++ [brace]) :=
  ⟨span, [brace], rfl, heads, .inr (by rw [List.map_singleton, closes])⟩

namespace Reader

/-- The second program has one more operation for each span of tokens, in order. -/
def Grows (R : Op → Tokens → Prop) (p q : Program) (spans : List Tokens) : Prop :=
  ∃ added, q.marks = p.marks ++ added ∧
    List.Forall₂ (fun slot span => ∃ op, slot = some op ∧ R op span) added spans

theorem Grows.refl (R : Op → Tokens → Prop) (p : Program) : Grows R p p [] :=
  ⟨[], (List.append_nil _).symm, .nil⟩

theorem Grows.trans {R : Op → Tokens → Prop} {p q r : Program} {first second : List Tokens}
    (left : Grows R p q first) (right : Grows R q r second) : Grows R p r (first ++ second) := by
  obtain ⟨added, marks, all⟩ := left
  obtain ⟨more, marksMore, allMore⟩ := right
  exact ⟨added ++ more, by rw [marksMore, marks, List.append_assoc], List.rel_append all allMore⟩

theorem Grows.one {R : Op → Tokens → Prop} {p q : Program} {op : Op} {span : Tokens}
    (marks : q.marks = p.marks ++ [some op]) (rel : R op span) : Grows R p q [span] :=
  ⟨[some op], marks, .cons ⟨op, rfl, rel⟩ .nil⟩

theorem forall₂_extend_last {α β : Type} {R S : α → List β → Prop} {left : List α}
    {right : List (List β)} (all : List.Forall₂ R left right) (some : right ≠ []) {tail : List β}
    (weaken : ∀ a part, R a part → S a part) (extend : ∀ a part, R a part → S a (part ++ tail)) :
    ∃ parts, parts.flatten = right.flatten ++ tail ∧ List.Forall₂ S left parts := by
  induction all with
  | nil => exact absurd rfl some
  | @cons a part lefts rights head rest ih =>
    cases rest with
    | nil => exact ⟨[part ++ tail], by simp, .cons (extend a part head) .nil⟩
    | cons next more =>
      obtain ⟨parts, same, related⟩ := ih (by simp)
      exact ⟨part :: parts, by simp [same], .cons (weaken a part head) related⟩

/-- A closing brace belongs to the last operation before it. -/
theorem Grows.close {file : String} {p q : Program} {spans : List Tokens}
    (grows : Grows (Op.Heads file) p q spans) (some : spans ≠ []) {brace : PlacedToken}
    (closes : brace.token = .rbrace) :
    ∃ closed, closed.flatten = spans.flatten ++ [brace] ∧ Grows (Op.Starts file) p q closed := by
  obtain ⟨added, marks, all⟩ := grows
  have weaken : ∀ slot span, (∃ op, slot = Option.some op ∧ Op.Heads file op span) →
      ∃ op, slot = Option.some op ∧ Op.Starts file op span := by
    rintro slot span ⟨op, isOp, heads⟩
    exact ⟨op, isOp, heads.starts⟩
  have extend : ∀ slot span, (∃ op, slot = Option.some op ∧ Op.Heads file op span) →
      ∃ op, slot = Option.some op ∧ Op.Starts file op (span ++ [brace]) := by
    rintro slot span ⟨op, isOp, heads⟩
    exact ⟨op, isOp, heads.starts_closed closes⟩
  obtain ⟨closed, same, related⟩ := forall₂_extend_last all some weaken extend
  exact ⟨closed, same, added, marks, related⟩

theorem placeOp_marks {file : String} {parent : Option OpId} {start : Pos} {state after : State}
    {form : OpText} {w : OpWords} (writes : Writes w form)
    (placed : placeOp file parent start state form = .ok after) :
    ∃ op : Op, after.program.marks = state.program.marks ++ [some op] ∧ op.Written w.tokens ∧
      op.loc = some ⟨file, start.line, start.col⟩ := by
  obtain ⟨kind, readKind, placed⟩ := bind_eq_ok.1 placed
  obtain ⟨types, readTypes, placed⟩ := bind_eq_ok.1 placed
  have isKind := atLine_eq_ok readKind
  have count := (resultTypes_cases (atLine_eq_ok readTypes)).1
  simp only at placed
  split at placed
  · cases placed
  · rename_i pushed
    obtain ⟨scope, bound, placed⟩ := bind_eq_ok.1 placed
    cases placed
    refine ⟨_, Program.marks_of_push pushed,
      .inl ⟨w, form.types, rfl, writes.types, ?_, ?_, ?_⟩, rfl⟩
    · rw [writes.name, writes.sym, writes.attrs]
      exact isKind
    · rw [writes.results, ← count]
      simp [Program.nextValues]
    · exact writes.operands.symm

theorem readOp_grows {file : String} {parent : Option OpId} {state after : State} {ts rest : Tokens}
    (read : readOp file parent state ts = .ok (after, rest)) :
    ∃ span, ts = span ++ rest ∧ Grows (Op.Heads file) state.program after.program [span] := by
  cases ts with
  | nil => cases read
  | cons first more =>
    obtain ⟨⟨form, left⟩, readText, read⟩ := bind_eq_ok.1 read
    obtain ⟨placed, place, read⟩ := bind_eq_ok.1 read
    cases read
    obtain ⟨w, writes, span, shape, tokens⟩ := opText_takes readText
    obtain ⟨op, marks, written, loc⟩ := placeOp_marks writes place
    cases span with
    | nil => simp [OpWords.tokens] at tokens
    | cons head own =>
      cases shape
      exact ⟨first :: own, rfl, .one marks ⟨tokens ▸ written, first, rfl, loc⟩⟩

theorem functionHead_grows {file : String} {state inside : State} {func : OpId} {ts rest : Tokens}
    (isFunction : startsFunction ts = true)
    (read : functionHead file state ts = .ok ((func, inside), rest)) :
    ∃ span, ts = span ++ rest ∧ Grows (Op.Heads file) state.program inside.program [span] := by
  cases ts with
  | nil => cases read
  | cons first more =>
    obtain ⟨⟨sym, afterName⟩, readName, read⟩ := bind_eq_ok.1 read
    obtain ⟨⟨list, afterParams⟩, readParams, read⟩ := bind_eq_ok.1 read
    obtain ⟨scope, bound, read⟩ := bind_eq_ok.1 read
    obtain ⟨afterBrace, readBrace, read⟩ := bind_eq_ok.1 read
    cases read
    have isFirst : first.token = .ident "func.func" := of_decide_eq_true isFunction
    obtain ⟨words, length, takesParams⟩ := params_takes readParams
    have takes := (functionName_takes readName).append (takesParams.append (expect_takes readBrace))
    obtain ⟨span, rfl, tokens⟩ := takes
    have written : (first :: span).map PlacedToken.token = functionTokens sym words := by
      rw [List.map_cons, tokens, isFirst]
      rfl
    refine ⟨first :: span, rfl, .one (Program.marks_addFunction _ _ _ _)
      ⟨.inr ⟨sym, words, written, rfl, ?_⟩, first, rfl, rfl⟩⟩
    simp [Program.nextValues, length]

theorem functionBody_grows {file : String} {func : OpId} {state after : State} {ts rest : Tokens}
    (read : functionBody file func state ts = .ok (after, rest)) :
    ∃ spans brace, ts = spans.flatten ++ brace :: rest ∧ brace.token = .rbrace ∧
      Grows (Op.Heads file) state.program after.program spans := by
  fun_induction functionBody file func state ts with
  | case2 state first more closing =>
    cases read
    exact ⟨[], first, rfl, closing, .refl _ _⟩
  | case5 state first more notClosing notFunction middle left readHead ih =>
    obtain ⟨span, shape, head⟩ := readOp_grows readHead
    obtain ⟨spans, brace, rfl, closes, grows⟩ := ih read
    exact ⟨span :: spans, brace, by rw [shape]; simp, closes, head.trans grows⟩
  | _ => cases read

theorem readFunction_grows {file : String} {state after : State} {ts rest : Tokens}
    (isFunction : startsFunction ts = true)
    (read : readFunction file state ts = .ok (after, rest)) :
    ∃ spans, ts = spans.flatten ++ rest ∧
      Grows (Op.Starts file) state.program after.program spans := by
  obtain ⟨⟨⟨func, inside⟩, left⟩, readHead, readBody⟩ := bind_eq_ok.1 read
  obtain ⟨head, shape, growsHead⟩ := functionHead_grows isFunction readHead
  obtain ⟨spans, brace, rfl, closes, growsBody⟩ := functionBody_grows readBody
  obtain ⟨closed, same, grows⟩ := (growsHead.trans growsBody).close (by simp) closes
  refine ⟨closed, ?_, grows⟩
  rw [shape, same]
  simp

theorem readItem_grows {file : String} {state after : State} {ts rest : Tokens}
    (read : readItem file state ts = .ok (after, rest)) :
    ∃ spans, ts = spans.flatten ++ rest ∧
      Grows (Op.Starts file) state.program after.program spans := by
  unfold readItem at read
  split at read
  · rename_i isFunction
    exact readFunction_grows isFunction read
  · obtain ⟨span, rfl, added, marks, all⟩ := readOp_grows read
    refine ⟨[span], by simp, added, marks, all.imp ?_⟩
    rintro slot own ⟨op, isOp, heads⟩
    exact ⟨op, isOp, heads.starts⟩

theorem readItems_grows {file : String} {wrapped : Bool} {state after : State} {ts rest : Tokens}
    (read : readItems file wrapped state ts = .ok (after, rest)) :
    ∃ spans closing, ts = spans.flatten ++ closing ++ rest ∧
      closing.map PlacedToken.token = (if wrapped then [.rbrace] else []) ∧
      Grows (Op.Starts file) state.program after.program spans := by
  fun_induction readItems file wrapped state ts with
  | case2 _ notWrapped =>
    cases read
    exact ⟨[], [], rfl, by simp [notWrapped], .refl _ _⟩
  | case3 state first more closing =>
    cases read
    obtain ⟨isWrapped, closes⟩ : wrapped = true ∧ first.token = .rbrace := by simpa using closing
    exact ⟨[], [first], rfl, by simp [isWrapped, closes], .refl _ _⟩
  | case5 state first more notClosing middle left readHead ih =>
    obtain ⟨head, shape, growsHead⟩ := readItem_grows readHead
    obtain ⟨spans, closing, rfl, closes, grows⟩ := ih read
    exact ⟨head ++ spans, closing, by rw [shape]; simp, closes, growsHead.trans grows⟩
  | _ => cases read

/-- What stands before the operations of a program and after them: nothing, or a name and braces. -/
def Wraps (opening closing : List Token) : Prop :=
  opening = [] ∧ closing = [] ∨
    ∃ sym : Option String, opening = .ident "module" :: (sym.toList.map .symbol ++ [.lbrace]) ∧
      closing = [.rbrace]

theorem wrapper_takes {ts rest : Tokens} {p : Program} (read : wrapper ts = .ok (p, rest)) :
    p.marks = [] ∧ ∃ sym : Option String, Takes ts (sym.toList.map .symbol ++ [.lbrace]) rest := by
  unfold wrapper at read
  split at read
  rename_i program more named
  split at read
  · rename_i left opened
    cases read
    have brace := expect_takes opened
    split at named
    · cases named
      exact ⟨rfl, some _, .cons rfl brace⟩
    · cases named
      exact ⟨rfl, none, brace⟩
  · cases read

theorem readProgram_grows {file : String} {ts : Tokens} {p : Program}
    (read : readProgram file ts = .ok p) :
    ∃ opening spans closing, ts = opening ++ spans.flatten ++ closing ∧
      Wraps (opening.map PlacedToken.token) (closing.map PlacedToken.token) ∧
      Grows (Op.Starts file) {} p spans := by
  simp only [readProgram] at read
  split at read
  · rename_i pos rest
    split at read
    · cases read
    · rename_i program more wrapped
      obtain ⟨⟨state, left⟩, readAll, done⟩ := bind_eq_ok.1 read
      obtain ⟨empty, sym, span, rfl, opens⟩ := wrapper_takes wrapped
      obtain ⟨spans, closing, rfl, closes, added, marks, all⟩ := readItems_grows readAll
      cases left with
      | cons t trailing => cases done
      | nil =>
        cases done
        refine ⟨⟨.ident "module", pos⟩ :: span, spans, closing, by simp, .inr ⟨sym, ?_, closes⟩,
          added, ?_, all⟩
        · rw [List.map_cons, opens]
        · rw [marks, empty]
          rfl
  · obtain ⟨⟨state, left⟩, readAll, done⟩ := bind_eq_ok.1 read
    obtain ⟨spans, closing, rfl, closes, grows⟩ := readItems_grows readAll
    cases left with
    | cons t trailing => cases done
    | nil =>
      cases done
      exact ⟨[], spans, closing, by simp, .inl ⟨rfl, closes⟩, grows⟩

end Reader

namespace Program

def loc? (p : Program) (id : OpId) : Option Loc := (p.op? id).bind Op.loc

/-- The operations of a program that was read are those of the spans, in program order. -/
theorem forall₂_walk_of_grows {R : Op → Reader.Tokens → Prop} {p : Program} {o : Outline}
    {spans : List Reader.Tokens} (isText : p.IsText o) (grows : Reader.Grows R {} p spans)
    (nested : ∀ op span, R { op with region := [] } span → R op span) :
    List.Forall₂ (fun id span => ∃ op, p.op? id = some op ∧ R op span) p.walk spans := by
  obtain ⟨added, marks, all⟩ := grows
  have same : added = p.walk.map fun id => (p.op? id).map fun op => { op with region := [] } := by
    rw [isText.walk_eq_range, map_range_marks, marks]
    rfl
  rw [same, List.forall₂_map_left_iff] at all
  refine all.imp ?_
  rintro id span ⟨stripped, found, related⟩
  obtain ⟨op, here, rfl⟩ := Option.map_eq_some_iff.mp found
  exact ⟨op, here, nested op span related⟩

/-- Operations that start at later tokens are at later locations. -/
theorem pairwise_before_of_forall₂ {file : String} {p : Program} {ids : List OpId}
    {spans : List Reader.Tokens}
    (all : List.Forall₂ (fun id span => ∃ op, p.op? id = some op ∧ op.Starts file span) ids spans)
    (ordered : spans.flatten.Pairwise fun first second => first.pos.Before second.pos) :
    ids.Pairwise fun first second => ∃ start later, p.loc? first = some start ∧
      p.loc? second = some later ∧ start.Before later := by
  have starts : ∀ id span, (∃ op, p.op? id = some op ∧ op.Starts file span) →
      ∃ t ∈ span, p.loc? id = some ⟨file, t.pos.line, t.pos.col⟩ := by
    rintro id span ⟨op, found, own, closing, rfl, ⟨-, t, head, loc⟩, -⟩
    refine ⟨t, List.mem_append_left _ (List.mem_of_mem_head? head), ?_⟩
    rw [loc?, found]
    exact loc
  induction all with
  | nil => exact .nil
  | @cons id span ids spans here rest ih =>
    rw [List.flatten_cons, List.pairwise_append] at ordered
    refine .cons (fun other mem => ?_) (ih ordered.2.1)
    obtain ⟨later, inSpans, there⟩ := forall₂_exists_of_mem rest mem
    obtain ⟨t, inSpan, loc⟩ := starts id span here
    obtain ⟨u, inLater, locLater⟩ := starts other later there
    have before := ordered.2.2 t inSpan u (List.mem_flatten.mpr ⟨later, inSpans, inLater⟩)
    exact ⟨_, _, loc, locLater, before⟩

/-- A text has tokens exactly if it is cut into gaps and their words, and each token is at the place
of its word. In a program that was read, every operation is located at the first of its tokens. In
program order and with the braces around them, the operations take all the tokens, so that their
locations strictly increase. -/
theorem places_of_text (file text : String) :
    (∀ ts, Lexer.tokens text = .ok ts ↔
      ∃ segments last, text.toList = segmentChars segments ++ last ∧ Maximal segments last ∧
        LastGap last ∧ ts = placedTokens [] segments) ∧
    ∀ p, ofText file text = .ok p →
      ∃ ts opening spans closing, Lexer.tokens text = .ok ts ∧
        ts = opening ++ spans.flatten ++ closing ∧
        Reader.Wraps (opening.map PlacedToken.token) (closing.map PlacedToken.token) ∧
        List.Forall₂ (fun id span => ∃ op, p.op? id = some op ∧ op.Starts file span) p.walk spans ∧
        p.walk.Pairwise fun first second => ∃ start later, p.loc? first = some start ∧
          p.loc? second = some later ∧ start.Before later := by
  refine ⟨fun ts => tokens_eq_ok_iff, fun p read => ?_⟩
  obtain ⟨o, isText⟩ := exists_isText_of_ofText read
  unfold ofText at read
  split at read
  · cases read
  · rename_i ts lexed
    obtain ⟨opening, spans, closing, shape, wraps, grows⟩ := Reader.readProgram_grows read
    have all := forall₂_walk_of_grows isText grows fun op span starts => starts
    obtain ⟨segments, last, -, -, -, placed⟩ := tokens_eq_ok_iff.mp lexed
    have ordered : ts.Pairwise fun first second => first.pos.Before second.pos := by
      rw [placed]
      exact pairwise_placedTokens [] segments
    rw [shape, List.pairwise_append, List.pairwise_append] at ordered
    exact ⟨ts, opening, spans, closing, lexed, shape, wraps, all,
      pairwise_before_of_forall₂ all ordered.1.2.1⟩

/-- The first operation begins on the line before its name, and the last one after a function. -/
theorem places_of_text_wrapped :
    ∃ p, ofText "in" "// c
module \x7b %a,
%b = t.p : i8, i8 func.func @f() \x7b\x7d t.q \x7d" = .ok p ∧
      p.walk.map p.loc? = [some ⟨"in", 2, 10⟩, some ⟨"in", 3, 19⟩, some ⟨"in", 3, 37⟩] ∧
      ∃ spans, List.Forall₂ (fun id span => ∃ op, p.op? id = some op ∧ op.Starts "in" span)
        p.walk spans := by
  obtain ⟨p, read, located⟩ : ∃ p, ofText "in" "// c
module \x7b %a,
%b = t.p : i8, i8 func.func @f() \x7b\x7d t.q \x7d" = .ok p ∧
      p.walk.map p.loc? =
      [some ⟨"in", 2, 10⟩, some ⟨"in", 3, 19⟩, some ⟨"in", 3, 37⟩] := by
    apply exists_of_chars
    decide +kernel
  obtain ⟨ts, opening, spans, closing, -, -, -, all, -⟩ := (places_of_text "in" _).2 p read
  exact ⟨p, read, located, spans, all⟩

end Program

end RngLowering
