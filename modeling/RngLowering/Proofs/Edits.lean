import Mathlib.Data.List.Nodup
import RngLowering.Proofs.Placement

/-!
Edits at a point of an outline. A cursor is an outline with a point in it, and a program that holds the
outline holds the point too: a region, with the operations before and after the point there.

Every edit of a region takes some operations out of it at the point and puts others there.
-/

set_option autoImplicit false

namespace RngLowering

/-- A point between two items of an outline, or between two statements of one of its functions. -/
inductive Cursor where
  | top (before after : Outline)
  | inner (before : Outline) (sym : String) (params : List (ValueId × Ty)) (front back : List Stmt)
    (after : Outline)

namespace Cursor

def outline : Cursor → Outline
  | .top before after => before ++ after
  | .inner before sym params front back after =>
    before ++ .func sym params (front ++ back) :: after

def insert (more : List Stmt) : Cursor → Cursor
  | .top before after => .top (before ++ more.map .op) after
  | .inner before sym params front back after => .inner before sym params (front ++ more) back after

def ahead (more : List Stmt) : Cursor → Cursor
  | .top before after => .top before (more.map .op ++ after)
  | .inner before sym params front back after => .inner before sym params front (more ++ back) after

@[simp] theorem insert_nil (c : Cursor) : c.insert [] = c := by
  cases c <;> simp [insert]

@[simp] theorem ahead_nil (c : Cursor) : c.ahead [] = c := by
  cases c <;> simp [ahead]

theorem insert_append (c : Cursor) (first second : List Stmt) :
    c.insert (first ++ second) = (c.insert first).insert second := by
  cases c <;> simp [insert]

/-- Statements before the point and after it are put there in either order. -/
theorem insert_ahead (c : Cursor) (front back : List Stmt) :
    (c.ahead back).insert front = (c.insert front).ahead back := by
  cases c <;> rfl

theorem outline_insert (c : Cursor) (more : List Stmt) :
    (c.insert more).outline = (c.ahead more).outline := by
  cases c <;> simp [insert, ahead, outline]

end Cursor

def swap (old new v : ValueId) : ValueId := if v = old then new else v

/-- A rewiring away from one value keeps the others. -/
theorem swap_of_ne {old new v : ValueId} (other : v ≠ old) : swap old new v = v := if_neg other

@[simp] theorem swap_self (old new : ValueId) : swap old new old = new := if_pos rfl

def Stmt.rewire (f : ValueId → ValueId) (s : Stmt) : Stmt :=
  { s with operands := s.operands.map f }

def Item.rewire (f : ValueId → ValueId) : Item → Item
  | .op s => .op (s.rewire f)
  | .func sym params body => .func sym params (body.map (Stmt.rewire f))

def Outline.rewire (f : ValueId → ValueId) (o : Outline) : Outline := o.map (Item.rewire f)

def Cursor.rewire (f : ValueId → ValueId) : Cursor → Cursor
  | .top before after => .top (Outline.rewire f before) (Outline.rewire f after)
  | .inner before sym params front back after =>
    .inner (Outline.rewire f before) sym params (front.map (Stmt.rewire f))
      (back.map (Stmt.rewire f)) (Outline.rewire f after)

theorem Cursor.rewire_ahead (f : ValueId → ValueId) (c : Cursor) (more : List Stmt) :
    (c.ahead more).rewire f = (c.rewire f).ahead (more.map (Stmt.rewire f)) := by
  cases c <;> simp [Cursor.ahead, Cursor.rewire, Outline.rewire, Item.rewire]

theorem Cursor.outline_rewire (f : ValueId → ValueId) (c : Cursor) :
    (c.rewire f).outline = Outline.rewire f c.outline := by
  cases c <;> simp [Cursor.outline, Cursor.rewire, Outline.rewire, Item.rewire]

namespace Program

/-- A program holds the outline of a cursor. The point is in the region of `parent`, between the
operations `front` and `back`. -/
inductive At (p : Program) : Cursor → Option OpId → List OpId → List OpId → Prop
  | top {before after : Outline} {front back : List OpId} (body : p.body = front ++ back)
      (nodup : (front ++ back).Nodup) (earlier : List.Forall₂ p.HoldsItem front before)
      (later : List.Forall₂ p.HoldsItem back after) : At p (.top before after) none front back
  | inner {before after : Outline} {sym : String} {params : List (ValueId × Ty)}
      {inFront inBack : List Stmt} {func : OpId} {outer more front back : List OpId}
      {loc : Option Loc} (body : p.body = outer ++ func :: more)
      (nodup : (outer ++ func :: more).Nodup) (earlier : List.Forall₂ p.HoldsItem outer before)
      (later : List.Forall₂ p.HoldsItem more after)
      (op : p.op? func = some (funcOp sym params (front ++ back) loc)) (types : p.Types params)
      (inNodup : (front ++ back).Nodup)
      (inEarlier : List.Forall₂ (p.HoldsStmt (some func)) front inFront)
      (inLater : List.Forall₂ (p.HoldsStmt (some func)) back inBack) :
      At p (.inner before sym params inFront inBack after) (some func) front back

section

variable {p q : Program} {c : Cursor} {parent : Option OpId} {front back : List OpId}

theorem At.represents (point : p.At c parent front back) : p.Represents c.outline := by
  cases point with
  | top body nodup earlier later =>
    refine ⟨body ▸ nodup, ?_⟩
    rw [body]
    exact List.rel_append earlier later
  | @inner _ _ _ _ _ _ func _ _ _ _ loc body nodup earlier later op types inNodup inEarlier inLater =>
    refine ⟨body ▸ nodup, ?_⟩
    rw [body]
    refine List.rel_append earlier (.cons ?_ later)
    exact ⟨_, ⟨loc, op⟩, types, inNodup, List.rel_append inEarlier inLater⟩

theorem At.region (point : p.At c parent front back) : p.region parent = .ok (front ++ back) := by
  cases point with
  | top body => simp [Program.region, body]
  | inner body nodup earlier later op => simp [Program.region, op, funcOp]

theorem At.nodup (point : p.At c parent front back) : (front ++ back).Nodup := by
  cases point with
  | top body nodup => exact nodup
  | inner body nodup earlier later op types inNodup => exact inNodup

theorem At.lt (point : p.At c parent front back) {id : OpId} (mem : id ∈ front ++ back) :
    id < p.ops.size := by
  cases point with
  | top body nodup earlier later =>
    obtain ⟨item, -, holds⟩ := forall₂_exists_of_mem (List.rel_append earlier later) mem
    exact holds.lt
  | inner body nodup earlier later op types inNodup inEarlier inLater =>
    obtain ⟨s, -, holds⟩ := forall₂_exists_of_mem (List.rel_append inEarlier inLater) mem
    exact holds.lt

/-- The operation after the point is the statement that the cursor has there. -/
theorem At.holdsStmt {s : Stmt} {id : OpId} (point : p.At (c.ahead [s]) parent front (id :: back)) :
    p.HoldsStmt parent id s := by
  cases c with
  | top before after =>
    cases point with
    | top body nodup earlier later =>
      cases later with
      | cons holds rest => exact holds
  | inner before sym params inFront inBack after =>
    cases point with
    | inner body nodup earlier later op types inNodup inEarlier inLater =>
      cases inLater with
      | cons holds rest => exact holds

/-- Move the point past a statement. -/
theorem At.advance {s : Stmt} {id : OpId} (point : p.At (c.ahead [s]) parent front (id :: back)) :
    p.At (c.insert [s]) parent (front ++ [id]) back := by
  have same : front ++ id :: back = front ++ [id] ++ back := by simp
  cases c with
  | top before after =>
    cases point with
    | top body nodup earlier later =>
      cases later with
      | cons holds rest =>
        exact .top (same ▸ body) (same ▸ nodup) (List.rel_append earlier (.cons holds .nil)) rest
  | inner before sym params inFront inBack after =>
    cases point with
    | inner body nodup earlier later op types inNodup inEarlier inLater =>
      cases inLater with
      | cons holds rest =>
        exact .inner body nodup earlier later (same ▸ op) types (same ▸ inNodup)
          (List.rel_append inEarlier (.cons holds .nil)) rest

end

theorem HoldsStmt.parent_eq {p : Program} {parent : Option OpId} {id : OpId} {s : Stmt} {op : Op}
    (holds : p.HoldsStmt parent id s) (found : p.op? id = some op) : op.parent = parent := by
  obtain ⟨loc, here⟩ := holds.op
  rw [here] at found
  cases found
  rfl

theorem HoldsItem.parent_eq {p : Program} {id : OpId} {item : Item} {op : Op}
    (holds : p.HoldsItem id item) (found : p.op? id = some op) : op.parent = none := by
  cases item with
  | op s => exact HoldsStmt.parent_eq holds found
  | func sym params body =>
    obtain ⟨region, func⟩ := holds
    obtain ⟨loc, here⟩ := func.op
    rw [here] at found
    cases found
    rfl

theorem HoldsStmt.region_eq {p : Program} {parent : Option OpId} {id : OpId} {s : Stmt} {op : Op}
    (holds : p.HoldsStmt parent id s) (found : p.op? id = some op) : op.region = [] := by
  obtain ⟨loc, here⟩ := holds.op
  rw [here] at found
  cases found
  rfl

theorem HoldsItem.exists_op {p : Program} {id : OpId} {item : Item} (holds : p.HoldsItem id item) :
    ∃ op, p.op? id = some op := by
  cases item with
  | op s =>
    obtain ⟨loc, found⟩ := HoldsStmt.op holds
    exact ⟨_, found⟩
  | func sym params body =>
    obtain ⟨region, func⟩ := holds
    obtain ⟨loc, found⟩ := func.op
    exact ⟨_, found⟩

/-- What is in the region of an item is a statement there. -/
theorem HoldsItem.holdsStmt {p : Program} {func id : OpId} {item : Item} {op : Op}
    (holds : p.HoldsItem func item) (found : p.op? func = some op) (mem : id ∈ op.region) :
    ∃ s, p.HoldsStmt (some func) id s := by
  cases item with
  | op s =>
    rw [HoldsStmt.region_eq holds found] at mem
    cases mem
  | func sym params body =>
    obtain ⟨region, func⟩ := holds
    obtain ⟨loc, here⟩ := func.op
    rw [here] at found
    cases found
    obtain ⟨s, -, stmt⟩ := forall₂_exists_of_mem func.body mem
    exact ⟨s, stmt⟩

def nested (p : Program) (id : OpId) : List OpId := ((p.op? id).map Op.region).getD []

theorem walkRegion_of_plain {p : Program} {region : List OpId}
    (plain : ∀ id ∈ region, ∃ op, p.op? id = some op ∧ op.region = []) (depth : Nat) :
    p.walkRegion (depth + 1) region = region := by
  have nothing : ∀ depth, p.walkRegion depth [] = [] := by
    intro depth
    cases depth <;> rfl
  rw [walkRegion]
  refine (List.flatMap_congr fun id mem => ?_).trans (List.flatMap_singleton' region)
  obtain ⟨op, found, empty⟩ := plain id mem
  simp only [found, empty, nothing]

/-- What an item encloses is in its region, and nothing is below that. -/
theorem HoldsItem.walkRegion_eq {p : Program} {id : OpId} {item : Item} {op : Op}
    (holds : p.HoldsItem id item) (found : p.op? id = some op) {depth : Nat}
    (size : p.ops.size = depth + 1) : p.walkRegion depth op.region = op.region := by
  have plain : ∀ inner ∈ op.region, ∃ other, p.op? inner = some other ∧ other.region = [] := by
    intro inner member
    obtain ⟨s, stmt⟩ := holds.holdsStmt found member
    obtain ⟨loc, here⟩ := stmt.op
    exact ⟨_, here, rfl⟩
  cases depth with
  | succ depth => exact walkRegion_of_plain plain depth
  | zero =>
    -- a statement and its function are two places
    have empty : op.region = [] := by
      refine List.eq_nil_iff_forall_not_mem.mpr fun inner member => ?_
      obtain ⟨s, stmt⟩ := holds.holdsStmt found member
      have apart : inner ≠ id := by
        rintro rfl
        rw [stmt.region_eq found] at member
        cases member
      have places : ∀ a b n : Nat, a < n → b < n → n = 1 → a = b := by omega
      exact apart (places inner id p.ops.size stmt.lt (op?_lt found) size)
    rw [empty]
    rfl

/-- The operations of a program are those of its body, each with those nested in it. -/
theorem walk_eq {p : Program} {o : Outline} (rep : p.Represents o) :
    p.walk = p.body.flatMap fun id => id :: p.nested id := by
  cases size : p.ops.size with
  | zero =>
    have empty : p.body = [] := by
      refine List.eq_nil_iff_forall_not_mem.mpr fun other mem => ?_
      have inside := lt_of_mem_body rep mem
      rw [size] at inside
      cases inside
    simp [walk, size, walkRegion, empty]
  | succ depth =>
    rw [walk, size, walkRegion]
    refine List.flatMap_congr fun id mem => ?_
    obtain ⟨item, -, holds⟩ := forall₂_exists_of_mem rep.items mem
    obtain ⟨op, found⟩ := holds.exists_op
    simp only [found, nested, Option.map_some, Option.getD_some, holds.walkRegion_eq found size]

/-- The operations of a program are those of its body and those in the functions there. -/
theorem mem_walk {p : Program} {o : Outline} (rep : p.Represents o) (id : OpId) :
    id ∈ p.walk ↔
      id ∈ p.body ∨ ∃ func ∈ p.body, ∃ op, p.op? func = some op ∧ id ∈ op.region := by
  have inNested : ∀ func, id ∈ p.nested func ↔ ∃ op, p.op? func = some op ∧ id ∈ op.region := by
    intro func
    unfold nested
    cases p.op? func <;> simp
  rw [walk_eq rep, List.mem_flatMap]
  constructor
  · rintro ⟨func, inBody, mem⟩
    rcases List.mem_cons.mp mem with rfl | inside
    · exact Or.inl inBody
    · exact Or.inr ⟨func, inBody, (inNested func).mp inside⟩
  · rintro (inBody | ⟨func, inBody, inside⟩)
    · exact ⟨id, inBody, by simp⟩
    · exact ⟨func, inBody, List.mem_cons_of_mem _ ((inNested func).mpr inside)⟩

theorem mem_nested {p : Program} {o : Outline} (rep : p.Represents o) {func id : OpId}
    (inBody : func ∈ p.body) (mem : id ∈ p.nested func) :
    ∃ s, p.HoldsStmt (some func) id s := by
  obtain ⟨item, -, holds⟩ := forall₂_exists_of_mem rep.items inBody
  obtain ⟨op, found⟩ := holds.exists_op
  simp only [nested, found, Option.map_some, Option.getD_some] at mem
  exact holds.holdsStmt found mem

/-- An operation of a program is a statement of its outline, or a function. -/
theorem stmt_of_mem_walk {p : Program} {o : Outline} (rep : p.Represents o) {id : OpId} {op : Op}
    (mem : id ∈ p.walk) (found : p.op? id = some op) :
    (∃ s ∈ o.stmts, ∃ parent, p.HoldsStmt parent id s) ∨
      ∃ sym params region loc, op = funcOp sym params region loc := by
  have inOutline : ∀ {item s}, item ∈ o → s ∈ item.stmts → s ∈ o.stmts :=
    fun inside stmt => List.mem_flatMap.mpr ⟨_, inside, stmt⟩
  rcases (mem_walk rep id).mp mem with inBody | ⟨func, inBody, funcOp, foundFunc, inside⟩
  · obtain ⟨item, inside, holds⟩ := forall₂_exists_of_mem rep.items inBody
    cases item with
    | op s => exact Or.inl ⟨s, inOutline inside (by simp [Item.stmts]), none, holds⟩
    | func sym params body =>
      obtain ⟨region, func⟩ := holds
      obtain ⟨loc, here⟩ := func.op
      rw [here] at found
      cases found
      exact Or.inr ⟨sym, params, region, loc, rfl⟩
  · obtain ⟨item, isItem, holds⟩ := forall₂_exists_of_mem rep.items inBody
    cases item with
    | op s =>
      rw [HoldsStmt.region_eq holds foundFunc] at inside
      cases inside
    | func sym params body =>
      obtain ⟨region, holdsFunc⟩ := holds
      obtain ⟨loc, here⟩ := holdsFunc.op
      rw [here] at foundFunc
      cases foundFunc
      obtain ⟨s, stmt, holds⟩ := forall₂_exists_of_mem holdsFunc.body inside
      exact Or.inl ⟨s, inOutline isItem stmt, some func, holds⟩

/-- An operation of the walk is in the body, or its parent is. -/
theorem parent_of_mem {p : Program} {o : Outline} (rep : p.Represents o) {func id : OpId}
    (inBody : func ∈ p.body) (mem : id ∈ func :: p.nested func) :
    ∃ op, p.op? id = some op ∧ op.parent.getD id = func := by
  rcases List.mem_cons.mp mem with rfl | inside
  · obtain ⟨item, -, holds⟩ := forall₂_exists_of_mem rep.items inBody
    obtain ⟨op, found⟩ := holds.exists_op
    exact ⟨op, found, by rw [holds.parent_eq found]; rfl⟩
  · obtain ⟨s, stmt⟩ := mem_nested rep inBody inside
    obtain ⟨loc, found⟩ := stmt.op
    exact ⟨_, found, rfl⟩

/-- No operation is in two places of a program. -/
theorem nodup_walk {p : Program} {o : Outline} (rep : p.Represents o) : p.walk.Nodup := by
  rw [walk_eq rep, List.nodup_flatMap]
  constructor
  · intro func inBody
    obtain ⟨item, -, holds⟩ := forall₂_exists_of_mem rep.items inBody
    refine List.nodup_cons.mpr ⟨fun inside => ?_, ?_⟩
    · obtain ⟨s, stmt⟩ := mem_nested rep inBody inside
      obtain ⟨op, found⟩ := holds.exists_op
      have absurd := (holds.parent_eq found).symm.trans (stmt.parent_eq found)
      cases absurd
    · cases item with
      | op s =>
        obtain ⟨loc, found⟩ := HoldsStmt.op holds
        simp [nested, found, Stmt.toOp]
      | func sym params body =>
        obtain ⟨region, func⟩ := holds
        obtain ⟨loc, found⟩ := func.op
        simpa [nested, found, funcOp] using func.nodup
  · refine rep.nodup.imp_of_mem fun {a b} inBodyA inBodyB apart => ?_
    intro id inA inB
    obtain ⟨op, found, owner⟩ := parent_of_mem rep inBodyA inA
    obtain ⟨other, foundOther, otherOwner⟩ := parent_of_mem rep inBodyB inB
    rw [found] at foundOther
    cases foundOther
    exact apart (owner.symm.trans otherOwner)

/-- Split two lists that are related at a member of the first. -/
theorem forall₂_split {α β : Type} {R : α → β → Prop} {left : List α} {right : List β} {a : α}
    (all : List.Forall₂ R left right) (mem : a ∈ left) :
    ∃ front back before b after, left = front ++ a :: back ∧ right = before ++ b :: after ∧
      List.Forall₂ R front before ∧ R a b ∧ List.Forall₂ R back after := by
  induction all with
  | nil => cases mem
  | @cons x y _ _ head rest ih =>
    rcases List.mem_cons.mp mem with rfl | later
    · exact ⟨[], _, [], y, _, rfl, rfl, .nil, head, rest⟩
    · obtain ⟨front, back, before, b, after, rfl, rfl, earlier, here, more⟩ := ih later
      exact ⟨x :: front, back, y :: before, b, after, rfl, rfl, .cons head earlier, here, more⟩

/-- Every operation that is no function has a point before it. -/
theorem exists_at {p : Program} {o : Outline} (rep : p.Represents o) {id : OpId} {op : Op}
    (mem : id ∈ p.walk) (found : p.op? id = some op) (plain : op.kind.isFunc = false) :
    ∃ (c : Cursor) (s : Stmt) (parent : Option OpId) (front back : List OpId),
      p.At (c.ahead [s]) parent front (id :: back) ∧ (c.ahead [s]).outline = o := by
  rcases (mem_walk rep id).mp mem with inBody | ⟨func, inBody, funcOp, foundFunc, inside⟩
  · obtain ⟨front, back, before, item, after, body, rfl, earlier, holds, later⟩ :=
      forall₂_split rep.items inBody
    cases item with
    | op s =>
      exact ⟨.top before after, s, none, front, back,
        .top body (body ▸ rep.nodup) earlier (.cons holds later), rfl⟩
    | func sym params stmts =>
      obtain ⟨region, func⟩ := holds
      obtain ⟨loc, here⟩ := func.op
      rw [here] at found
      cases found
      cases plain
  · obtain ⟨outer, more, before, item, after, body, rfl, earlier, holds, later⟩ :=
      forall₂_split rep.items inBody
    cases item with
    | op s =>
      rw [HoldsStmt.region_eq holds foundFunc] at inside
      cases inside
    | func sym params stmts =>
      obtain ⟨region, holdsFunc⟩ := holds
      obtain ⟨loc, here⟩ := holdsFunc.op
      rw [here] at foundFunc
      cases foundFunc
      obtain ⟨front, back, inFront, s, inBack, rfl, rfl, inEarlier, stmt, inLater⟩ :=
        forall₂_split holdsFunc.body inside
      exact ⟨.inner before sym params inFront inBack after, s, some func, front, back,
        .inner body (body ▸ rep.nodup) earlier later here holdsFunc.types holdsFunc.nodup inEarlier
          (.cons stmt inLater), rfl⟩

/-- In the region of `parent`, the operations `old` are erased and the operations `new` put in their
place, which were not there before. All else stays. -/
structure Splices (p q : Program) (parent : Option OpId) (front old new back : List OpId) :
    Prop where
  region : p.region parent = .ok (front ++ old ++ back)
  body : q.body = if parent = none then front ++ new ++ back else p.body
  owner : ∀ func op, parent = some func → p.op? func = some op →
    q.op? func = some { op with region := front ++ new ++ back }
  keep : ∀ id op, p.op? id = some op → id ∉ old → parent ≠ some id → q.op? id = some op
  gone : ∀ id ∈ old, q.op? id = none
  rest : ∀ id, (q.op? id).isSome → id ∉ new → (p.op? id).isSome
  fresh : ∀ id ∈ new, p.ops.size ≤ id
  size : p.ops.size ≤ q.ops.size
  types : ∀ v ty, p.typeOf v = .ok ty → q.typeOf v = .ok ty
  name : q.name = p.name

section

variable {p q : Program} {c : Cursor} {parent : Option OpId} {front old new back : List OpId}

/-- The region of a point is that of a function, or the body. -/
theorem At.ne_of_plain (point : p.At c parent front back) {id : OpId} {op : Op}
    (found : p.op? id = some op) (plain : op.kind.isFunc = false) : parent ≠ some id := by
  cases point with
  | top => simp
  | inner body nodup earlier later here =>
    rintro ⟨⟩
    rw [here] at found
    cases found
    cases plain

theorem forall₂_append_split {α β : Type} {R : α → β → Prop} {first second : List α}
    {before after : List β} (all : List.Forall₂ R (first ++ second) (before ++ after))
    (length : first.length = before.length) :
    List.Forall₂ R first before ∧ List.Forall₂ R second after := by
  have front := List.forall₂_take_append _ _ _ all
  have back := List.forall₂_drop_append _ _ _ all
  rw [← length, List.take_left] at front
  rw [← length, List.drop_left] at back
  exact ⟨front, back⟩

/-- The operations at a point that a cursor has statements for. -/
theorem At.holdsStmts {stmts : List Stmt} (point : p.At (c.ahead stmts) parent front (old ++ back))
    (length : old.length = stmts.length) : List.Forall₂ (p.HoldsStmt parent) old stmts := by
  cases c with
  | top before after =>
    cases point with
    | top body nodup earlier later =>
      have holds := (forall₂_append_split later (by simpa using length)).1
      exact (List.forall₂_map_right_iff (R := p.HoldsItem) (f := Item.op)).mp holds
  | inner before sym params inFront inBack after =>
    cases point with
    | inner body nodup earlier later op types inNodup inEarlier inLater =>
      exact (forall₂_append_split inLater length).1

namespace Splices

theorem holdsStmt (edit : p.Splices q parent front old new back)
    (point : p.At c parent front (old ++ back)) {id : OpId} {s : Stmt}
    (holds : p.HoldsStmt parent id s) (here : id ∉ old) : q.HoldsStmt parent id s :=
  holds.mono (fun op plain found => edit.keep id op found here (point.ne_of_plain found plain))
    edit.types

theorem holdsItem (edit : p.Splices q parent front old new back)
    (point : p.At c parent front (old ++ back))
    (inRegion : ∀ id ∈ old, ∃ s, p.HoldsStmt parent id s) {id : OpId} {item : Item}
    (holds : p.HoldsItem id item) (here : id ∉ old) (apart : parent ≠ some id) :
    q.HoldsItem id item := by
  refine holds.mono (fun other op which found => ?_) edit.types
  rcases which with ⟨plain, inside⟩ | rfl
  · refine edit.keep other op found (fun inOld => ?_) (point.ne_of_plain found plain)
    obtain ⟨s, stmt⟩ := inRegion other inOld
    rw [stmt.parent_eq found] at inside
    exact apart inside
  · exact edit.keep other op found here apart

end Splices

/-- What the point of a cursor is at after a splice there. -/
theorem At.splice {gone more : List Stmt}
    (point : p.At (c.ahead gone) parent front (old ++ back)) (length : old.length = gone.length)
    (edit : p.Splices q parent front old new back) (nodup : (front ++ (new ++ back)).Nodup)
    (holds : List.Forall₂ (q.HoldsStmt parent) new more) :
    q.At (c.ahead more) parent front (new ++ back) := by
  have inRegion : ∀ id ∈ old, ∃ s, p.HoldsStmt parent id s := by
    intro id mem
    obtain ⟨s, -, stmt⟩ := forall₂_exists_of_mem (point.holdsStmts length) mem
    exact ⟨s, stmt⟩
  have notOld : ∀ id, id ∈ front ∨ id ∈ back → id ∉ old := by
    intro id mem inOld
    have oldNodup := point.nodup
    rw [List.nodup_append, List.nodup_append] at oldNodup
    rcases mem with inFront | inBack
    · exact oldNodup.2.2 id inFront id (by simp [inOld]) rfl
    · exact oldNodup.2.1.2.2 id inOld id inBack rfl
  cases c with
  | top before after =>
    have whole := point
    cases point with
    | top body _ earlier later =>
      have laterBack := (forall₂_append_split later (by simpa using length)).2
      have keep : ∀ id item, id ∉ old → p.HoldsItem id item → q.HoldsItem id item :=
        fun id item here item => edit.holdsItem whole inRegion item here (by simp)
      refine .top (by rw [edit.body, if_pos rfl, List.append_assoc]) nodup ?_
        (List.rel_append ?_ ?_)
      · exact forall₂_imp_of_mem earlier fun id item mem => keep id item (notOld id (Or.inl mem))
      · exact (List.forall₂_map_right_iff (R := q.HoldsItem) (f := Item.op)).mpr holds
      · exact forall₂_imp_of_mem laterBack fun id item mem => keep id item (notOld id (Or.inr mem))
  | inner before sym params inFront inBack after =>
    have whole := point
    cases point with
    | @inner _ _ _ _ _ _ func _ _ _ _ _ body outNodup earlier later op types _ inEarlier inLater =>
      rw [List.nodup_append, List.nodup_cons] at outNodup
      have keep : ∀ id item, id ≠ func → p.HoldsItem id item → q.HoldsItem id item := by
        intro id item other holds
        refine edit.holdsItem whole inRegion holds (fun inOld => ?_)
          (fun same => other (Option.some.inj same).symm)
        obtain ⟨s, stmt⟩ := inRegion id inOld
        obtain ⟨there, found⟩ := holds.exists_op
        have absurd := (stmt.parent_eq found).symm.trans (holds.parent_eq found)
        cases absurd
      refine .inner (by rw [edit.body, if_neg (by simp), body]) (body ▸ whole.represents.nodup)
        (forall₂_imp_of_mem earlier fun id item mem => keep id item ?_)
        (forall₂_imp_of_mem later fun id item mem => keep id item ?_)
        (List.append_assoc front new back ▸ edit.owner func _ rfl op) (fun v ty mem => edit.types v ty (types v ty mem))
        nodup
        (forall₂_imp_of_mem inEarlier fun id s mem stmt =>
          edit.holdsStmt whole stmt (notOld id (Or.inl mem)))
        (List.rel_append holds (forall₂_imp_of_mem (forall₂_append_split inLater length).2
          fun id s mem stmt => edit.holdsStmt whole stmt (notOld id (Or.inr mem))))
      · exact outNodup.2.2 id mem func (by simp)
      · rintro rfl
        exact outNodup.2.1.1 mem

/-- The statement that an operation inserted in a program is. -/
def nextStmt (p : Program) (kind : OpKind) (operands : List ValueId) (types : List Ty) : Stmt :=
  ⟨kind, operands, (p.nextValues types.length).zip types⟩

@[simp] theorem types_nextStmt (p : Program) (kind : OpKind) (operands : List ValueId)
    (types : List Ty) : (p.nextStmt kind operands types).types = types := by
  simp [nextStmt, Stmt.types, List.map_snd_zip, nextValues]

def inserted (p : Program) (parent : Option OpId) (index : Nat) (op : Op) (types : List Ty) :
    Program :=
  (p.append { op with parent, results := p.nextValues types.length }
    (resultInfos p.ops.size types)).modifyRegion parent (insertAt · index p.ops.size)

theorem insert_eq (found : p.region parent = .ok front) (index : Nat) (op : Op) (types : List Ty) :
    p.insert parent index op types = .ok (p.ops.size, p.inserted parent index op types) := by
  simp only [Program.insert, found]
  rfl

theorem insertAt_append (front back : List OpId) (item : OpId) :
    insertAt (front ++ back) front.length item = front ++ [item] ++ back := by
  simp [insertAt]

theorem ne_of_region {region : List OpId} (found : p.region parent = .ok region) :
    parent ≠ some p.ops.size := by
  rintro rfl
  simp [Program.region, op?_eq_none_of_le (Nat.le_refl p.ops.size)] at found

theorem splices_inserted (found : p.region parent = .ok (front ++ back)) (op : Op)
    (types : List Ty) :
    p.Splices (p.inserted parent front.length op types) parent front [] [p.ops.size] back := by
  have outside := ne_of_region found
  have eq : p.inserted parent front.length op types =
      (p.append { op with parent, results := p.nextValues types.length }
        (resultInfos p.ops.size types)).modifyRegion parent fun _ => front ++ [p.ops.size] ++ back :=
    modifyRegion_congr (region_append found _ _) _ _ (insertAt_append front back p.ops.size)
  rw [eq]
  refine ⟨by rw [found, List.append_nil], ?_, ?_, ?_, by simp, ?_, by simp, ?_, ?_,
    name_modifyRegion _ _ _⟩
  · rw [body_modifyRegion, body_append]
  · rintro func old rfl here
    rw [op?_modifyRegion, if_pos rfl, op?_append_of_some here]
    rfl
  · intro id old here _ apart
    rw [op?_modifyRegion, if_neg apart, op?_append_of_some here]
  · intro id live new
    have old : id ≠ p.ops.size := by simpa using new
    rw [op?_modifyRegion, op?_append] at live
    by_cases owner : parent = some id
    · simpa [owner, old] using live
    · simpa [owner, old] using live
  · rw [size_ops_modifyRegion, size_ops_append]
    exact Nat.le_succ _
  · intro v ty typed
    rw [typeOf_modifyRegion]
    exact typeOf_append_of_ok typed _ _

theorem op?_inserted_new (found : p.region parent = .ok front) (index : Nat) (kind : OpKind)
    (operands : List ValueId) (loc : Option Loc) (types : List Ty) :
    (p.inserted parent index { kind, operands, loc } types).op? p.ops.size =
      some ((p.nextStmt kind operands types).toOp parent loc) := by
  rw [inserted, op?_modifyRegion, if_neg (ne_of_region found), op?_append, if_pos rfl]
  simp [Stmt.toOp, nextStmt, Stmt.defs, List.map_fst_zip, nextValues]

@[simp] theorem size_values_inserted (parent : Option OpId) (index : Nat) (op : Op)
    (types : List Ty) :
    (p.inserted parent index op types).values.size = p.values.size + types.length := by
  simp [inserted, length_resultInfos]

@[simp] theorem size_ops_inserted (parent : Option OpId) (index : Nat) (op : Op)
    (types : List Ty) : (p.inserted parent index op types).ops.size = p.ops.size + 1 := by
  simp [inserted]

theorem types_inserted (parent : Option OpId) (index : Nat) (op : Op) (kind : OpKind)
    (operands : List ValueId) (types : List Ty) :
    (p.inserted parent index op types).Types (p.nextStmt kind operands types).results := by
  intro v ty mem
  rw [inserted, typeOf_modifyRegion]
  have sameTypes := (map_ty_resultInfos p.ops.size types).trans
    (types_nextStmt p kind operands types).symm
  exact types_append (numbered_nextValues p types) sameTypes _ v ty mem

/-- An operation inserted at a point is a statement there, and the point is after it. -/
theorem At.inserted (point : p.At c parent front back) {kind : OpKind}
    (plain : kind.isFunc = false) (operands : List ValueId) (loc : Option Loc) (types : List Ty) :
    (p.inserted parent front.length { kind, operands, loc } types).At
      (c.insert [p.nextStmt kind operands types]) parent (front ++ [p.ops.size]) back := by
  have found := point.region
  have holds : (p.inserted parent front.length { kind, operands, loc } types).HoldsStmt parent
      p.ops.size (p.nextStmt kind operands types) :=
    ⟨⟨loc, op?_inserted_new found _ kind operands loc types⟩,
      types_inserted parent _ _ kind operands types, plain⟩
  have nodup : (front ++ ([p.ops.size] ++ back)).Nodup := by
    refine (List.perm_middle.nodup_iff).mpr (List.nodup_cons.mpr ⟨fun mem => ?_, point.nodup⟩)
    exact Nat.lt_irrefl _ (point.lt mem)
  rw [← Cursor.ahead_nil c] at point
  exact (point.splice rfl (splices_inserted found _ types) nodup (.cons holds .nil)).advance

theorem subtree_of_plain {id : OpId} {op : Op} (found : p.op? id = some op) (empty : op.region = []) :
    p.subtree id = [id] := by
  obtain ⟨depth, size⟩ := Nat.exists_eq_succ_of_ne_zero (Nat.ne_of_gt (Nat.zero_lt_of_lt (op?_lt found)))
  cases depth <;> simp [subtree, size, walkRegion, found, empty]

theorem splices_erased {id : OpId} (found : p.region parent = .ok (front ++ [id] ++ back))
    (apart : parent ≠ some id) :
    p.Splices ((p.modifyRegion parent fun _ => front ++ [] ++ back).clear [id]) parent front [id] []
      back := by
  refine ⟨found, ?_, ?_, ?_, ?_, ?_, by simp, ?_, ?_, name_modifyRegion p parent _⟩
  · exact body_modifyRegion p parent _
  · rintro func op rfl here
    have other : func ∉ [id] := by simpa using apart
    rw [op?_clear, if_neg other, op?_modifyRegion, if_pos rfl, here]
    rfl
  · intro other op here notOld notOwner
    rw [op?_clear, if_neg notOld, op?_modifyRegion, if_neg notOwner, here]
  · intro other old
    rw [op?_clear, if_pos old]
  · intro other live _
    rw [op?_clear, op?_modifyRegion] at live
    split at live
    · cases live
    · split at live
      · simpa using live
      · exact live
  · apply Nat.le_of_eq
    rw [size_ops_clear, size_ops_modifyRegion]
  · intro v ty typed
    exact (typeOf_modifyRegion p parent _ v).trans typed

/-- An operation can be erased, and the point stays. -/
theorem At.erase {s : Stmt} {id : OpId} (point : p.At (c.ahead [s]) parent front (id :: back)) :
    ∃ op q, p.erase id = .ok (op, q) ∧ p.Splices q parent front [id] [] back ∧
      q.At c parent front back := by
  have stmt := point.holdsStmt
  obtain ⟨loc, here⟩ := stmt.op
  have nodup := List.nodup_cons.mp ((List.perm_middle.nodup_iff).mp point.nodup)
  have filtered : (front ++ id :: back).filter (fun other => decide (other ≠ id)) =
      front ++ [] ++ back := by
    have kept : ∀ other ∈ front ++ back, decide (other ≠ id) = true := by
      intro other mem
      rw [decide_eq_true_eq]
      rintro rfl
      exact nodup.1 mem
    rw [List.filter_append, List.filter_cons_of_neg (by simp), ← List.filter_append,
      List.filter_eq_self.mpr kept, List.append_nil]
  have region : p.region parent = .ok (front ++ [id] ++ back) := by
    rw [List.append_assoc]
    exact point.region
  have edit := splices_erased region (point.ne_of_plain here stmt.plain)
  refine ⟨_, _, by simp only [Program.erase, here, Stmt.parent_toOp, point.region]; rfl, ?_⟩
  rw [subtree_of_plain here rfl,
    modifyRegion_congr point.region _ (fun _ => front ++ [] ++ back) filtered]
  refine ⟨edit, ?_⟩
  change p.At (c.ahead [s]) parent front ([id] ++ back) at point
  rw [← Cursor.ahead_nil c]
  exact point.splice rfl edit nodup.2 .nil

theorem typeOf_replaceUses (p : Program) (old new v : ValueId) :
    (p.replaceUses old new).typeOf v = p.typeOf v := rfl

theorem HoldsStmt.rewire {id : OpId} {s : Stmt} (holds : p.HoldsStmt parent id s)
    (old new : ValueId) :
    (p.replaceUses old new).HoldsStmt parent id (s.rewire (swap old new)) := by
  obtain ⟨loc, found⟩ := holds.op
  refine ⟨⟨loc, ?_⟩, holds.types, holds.plain⟩
  rw [op?_replaceUses, found]
  rfl

theorem forall₂_holdsStmt_rewire {ids : List OpId} {body : List Stmt}
    (holds : List.Forall₂ (p.HoldsStmt parent) ids body) (old new : ValueId) :
    List.Forall₂ ((p.replaceUses old new).HoldsStmt parent) ids
      (body.map (Stmt.rewire (swap old new))) :=
  List.forall₂_map_right_iff.mpr (holds.imp fun _ _ stmt => stmt.rewire old new)

theorem HoldsItem.rewire {id : OpId} {item : Item} (holds : p.HoldsItem id item)
    (old new : ValueId) : (p.replaceUses old new).HoldsItem id (item.rewire (swap old new)) := by
  cases item with
  | op s => exact HoldsStmt.rewire holds old new
  | func sym params body =>
    obtain ⟨region, func⟩ := holds
    obtain ⟨loc, found⟩ := func.op
    refine ⟨region, ⟨loc, ?_⟩, func.types, func.nodup, forall₂_holdsStmt_rewire func.body old new⟩
    rw [op?_replaceUses, found]
    rfl

theorem forall₂_holdsItem_rewire {ids : List OpId} {o : Outline}
    (holds : List.Forall₂ p.HoldsItem ids o) (old new : ValueId) :
    List.Forall₂ (p.replaceUses old new).HoldsItem ids (Outline.rewire (swap old new) o) :=
  List.forall₂_map_right_iff.mpr (holds.imp fun _ _ item => item.rewire old new)

/-- A point stays where uses are rewired. -/
theorem At.rewire (point : p.At c parent front back) (old new : ValueId) :
    (p.replaceUses old new).At (c.rewire (swap old new)) parent front back := by
  cases point with
  | top body nodup earlier later =>
    exact .top body nodup (forall₂_holdsItem_rewire earlier old new)
      (forall₂_holdsItem_rewire later old new)
  | @inner _ _ sym params _ _ func _ _ _ _ loc body nodup earlier later op types inNodup inEarlier
    inLater =>
    have rewired : (p.replaceUses old new).op? func =
        some (funcOp sym params (front ++ back) loc) := by
      rw [op?_replaceUses, op]
      rfl
    exact .inner body nodup (forall₂_holdsItem_rewire earlier old new)
      (forall₂_holdsItem_rewire later old new) rewired types inNodup
      (forall₂_holdsStmt_rewire inEarlier old new) (forall₂_holdsStmt_rewire inLater old new)

end

end Program

end RngLowering
