import RngLowering.Proofs.Printing
import RngLowering.Proofs.ReadBack

set_option autoImplicit false

namespace RngLowering

theorem nodup_of_numbered {values : List ValueId} {first : Nat}
    (numbered : NumberedFrom first values) : values.Nodup := by
  rw [numbered]
  exact List.nodup_range'

theorem idxOf_of_numbered {values : List ValueId} (numbered : NumberedFrom 0 values) {v : ValueId}
    (mem : v ∈ values) : values.idxOf v = v := by
  obtain ⟨index, inside, rfl⟩ := List.getElem_of_mem mem
  rw [(nodup_of_numbered numbered).idxOf_getElem index inside]
  have place : values[index]? = some index := by
    rw [numbered, List.getElem?_range' (by simpa using inside)]
    simp
  rw [List.getElem?_eq_getElem inside] at place
  exact (Option.some.inj place).symm

/-- The places of distinct values are numbered in order. -/
theorem numbered_map_idxOf {values : List ValueId} (nodup : values.Nodup) :
    NumberedFrom 0 (values.map values.idxOf) := by
  unfold NumberedFrom
  refine List.ext_getElem (by simp) fun index left right => ?_
  have inside : index < values.length := by simpa using left
  simp [nodup.idxOf_getElem index inside]

theorem map_rename_eq_self {f : ValueId → ValueId} {typed : List (ValueId × Ty)}
    (same : ∀ v ∈ typed.map Prod.fst, f v = v) : (typed.map fun (v, ty) => (f v, ty)) = typed := by
  have each : ∀ item ∈ typed, (f item.1, item.2) = id item :=
    fun item mem => by rw [same item.1 (List.mem_map_of_mem mem)]; rfl
  rw [List.map_congr_left each, List.map_id]

theorem Stmt.rename_eq_self {f : ValueId → ValueId} {s : Stmt}
    (operands : ∀ v ∈ s.operands, f v = v) (defs : ∀ v ∈ s.defs, f v = v) : s.rename f = s := by
  have uses : s.operands.map f = s.operands := by
    rw [List.map_congr_left (g := id) operands, List.map_id]
  simp only [Stmt.rename, uses, map_rename_eq_self defs]

/-- An outline that uses only what it defines is not changed by a renaming that keeps that. -/
theorem Outline.rename_eq_self {f : ValueId → ValueId} {o : Outline} (closed : o.Scoped [])
    (defs : ∀ v ∈ o.defs, f v = v) : o.rename f = o := by
  have stmts : ∀ s ∈ o.stmts, s.rename f = s := by
    intro s mem
    refine Stmt.rename_eq_self (fun v used => ?_) fun v defined => ?_
    · rcases Outline.mem_defs_of_scoped closed mem used with inside | absurd
      · exact defs v inside
      · cases absurd
    · exact defs v (Outline.mem_defs_of_mem_stmts mem defined)
  have items : ∀ item ∈ o, item.rename f = id item := by
    intro item mem
    cases item with
    | op s =>
      have inside : s ∈ o.stmts := List.mem_flatMap.mpr ⟨.op s, mem, List.mem_singleton.mpr rfl⟩
      simp [Item.rename, stmts s inside]
    | func sym params body =>
      have paramsSame : (params.map fun (v, ty) => (f v, ty)) = params := by
        refine map_rename_eq_self fun v param => defs v ?_
        exact List.mem_flatMap.mpr ⟨_, mem, List.mem_append_left _ param⟩
      have bodySame : body.map (Stmt.rename f) = body := by
        have each : ∀ s ∈ body, s.rename f = id s := fun s inBody =>
          stmts s (List.mem_flatMap.mpr ⟨_, mem, inBody⟩)
        rw [List.map_congr_left each, List.map_id]
      simp [Item.rename, paramsSame, bodySame]
  rw [Outline.rename, List.map_congr_left items, List.map_id]

namespace Program

theorem text_eq {p : Program} {o : Outline} (rep : p.Represents o) (nodup : o.defs.Nodup)
    (closed : o.Scoped []) :
    p.text = String.join (((o.rename o.defs.idxOf).lines p.name).map Line.text) := by
  rw [text, lines_eq rep nodup closed]

/-- A program that represents a numbered outline prints as this does. -/
theorem text_eq_of_numbered {p : Program} {o : Outline} (rep : p.Represents o)
    (numbered : NumberedFrom 0 o.defs) (closed : o.Scoped []) :
    p.text = String.join ((o.lines p.name).map Line.text) := by
  rw [text_eq rep (nodup_of_numbered numbered) closed,
    Outline.rename_eq_self closed fun v mem => idxOf_of_numbered numbered mem]

theorem IsText.represents {p : Program} {o : Outline} (isText : p.IsText o) : p.Represents o := by
  refine Represents.of_eraseLocs ?_
  rw [isText.built]
  exact represents_build (Outline.plain_of_legible isText.legible) isText.numbered p.name

/-- The text of a program is read as its outline, with the values numbered in order. -/
theorem exists_isText_text {p : Program} {o : Outline} (rep : p.Represents o)
    (nodup : o.defs.Nodup) (closed : o.Scoped []) (legible : o.Legible)
    (isName : IsName p.name.toList) (file : String) :
    ∃ q, ofText file p.text = .ok q ∧ q.IsText (o.rename o.defs.idxOf) ∧ q.name = p.name ∧
      q.text = p.text := by
  have renamed : (o.rename o.defs.idxOf).Scoped [] := Outline.scoped_rename closed
  have numbered : NumberedFrom 0 (o.rename o.defs.idxOf).defs := by
    rw [Outline.defs_rename]
    exact numbered_map_idxOf nodup
  have renamedLegible := Outline.legible_rename legible o.defs.idxOf
  obtain ⟨q, read, built⟩ := ofText_lines renamedLegible renamed numbered isName file
  have name : q.name = p.name := by
    rw [← name_eraseLocs, built, name_build]
  have isText : q.IsText (o.rename o.defs.idxOf) :=
    ⟨name ▸ isName, renamedLegible, renamed, numbered, name ▸ built⟩
  refine ⟨q, ?_, isText, name, ?_⟩
  · rw [text_eq rep nodup closed]
    exact read
  · rw [text_eq_of_numbered isText.represents numbered renamed, name, text_eq rep nodup closed]

/-- Reading undoes printing: a program that was read from a text comes back from its own text as it
is, but for the locations, and prints as before. -/
theorem ofText_text_eq {file text : String} {p : Program} (read : ofText file text = .ok p)
    (copy : String) :
    ∃ q, ofText copy p.text = .ok q ∧ q.eraseLocs = p.eraseLocs ∧ q.text = p.text := by
  obtain ⟨o, isText⟩ := exists_isText_of_ofText read
  obtain ⟨q, readBack, again, name, same⟩ := exists_isText_text isText.represents
    (nodup_of_numbered isText.numbered) isText.closed isText.legible isText.name copy
  rw [Outline.rename_eq_self isText.closed fun v mem => idxOf_of_numbered isText.numbered mem]
    at again
  exact ⟨q, readBack, by rw [again.built, name, isText.built], same⟩

/-- A constant that is cut to its width, and a foreign operation that is named like a function. -/
theorem ofText_text_eq_foreign :
    ∃ p q, ofText "in" "func.func @f(%a: i8) \x7b%r = func.func @g %a \x7bk = \"x\"\x7d : i8
      %c = arith.constant \x7bvalue = 300, seen\x7d : i8\x7d" = .ok p ∧
      ofText "out" p.text = .ok q ∧ q.eraseLocs = p.eraseLocs ∧ q.text = p.text := by
  obtain ⟨p, read, -⟩ :
      ∃ p, ofText "in" "func.func @f(%a: i8) \x7b%r = func.func @g %a \x7bk = \"x\"\x7d : i8
      %c = arith.constant \x7bvalue = 300, seen\x7d : i8\x7d" = .ok p ∧ True := by
    apply exists_of_chars
    decide +kernel
  obtain ⟨q, readBack, same, text⟩ := ofText_text_eq read "out"
  exact ⟨p, q, read, readBack, same, text⟩

end Program

end RngLowering
