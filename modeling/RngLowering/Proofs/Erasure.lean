import RngLowering.Conversion.Rule
import RngLowering.Proofs.Requests

set_option autoImplicit false

namespace RngLowering.Program

open Classical in
/-- What is left of `p` without the operation at `id` and all that it encloses. -/
structure Erased (p : Program) (id : OpId) (op : Op) (q : Program) : Prop where
  name : q.name = p.name
  values : q.values = p.values
  /-- Places are not given back. -/
  size : q.ops.size = p.ops.size
  dead : ∀ other, q.op? other = none ↔ p.op? other = none ∨ p.Encloses id other
  /-- Only the parent of the operation changes, and only in what its region holds. -/
  kept : ∀ other old, p.op? other = some old → ¬ p.Encloses id other →
    q.op? other =
      some (if op.parent = some other then { old with region := old.region.erase id } else old)
  body : q.body = if op.parent = none then p.body.erase id else p.body
  walk : q.walk = p.walk.filter fun other => ¬ p.Encloses id other

/-- A walk goes past a dead place. -/
theorem walkRegion_erase_dead {p : Program} {id : OpId} (dead : p.op? id = none) (depth : Nat)
    (region : List OpId) : p.walkRegion depth (region.erase id) = p.walkRegion depth region := by
  cases depth with
  | zero => rfl
  | succ depth =>
    simp only [walkRegion]
    induction region with
    | nil => rfl
    | cons other rest ih =>
      by_cases same : other = id
      · subst same
        rw [List.erase_cons_head, List.flatMap_cons, dead]
        rfl
      · rw [List.erase_cons_tail (by simpa using same), List.flatMap_cons, List.flatMap_cons, ih]

section

variable {p : Program} {id : OpId} {op : Op} (wf : p.WellFormed) (found : p.op? id = some op)

include wf

theorem WellFormed.filter_ne_eq_erase {owner : Option OpId} {region : List OpId}
    (held : p.region owner = .ok region) (id : OpId) :
    region.filter (· ≠ id) = region.erase id := by
  rw [(wf.nodup owner region held).erase_eq_filter]
  apply List.filter_congr
  intro other _
  exact Bool.eq_iff_iff.mpr (by rw [decide_eq_true_iff, bne_iff_ne])

include found

/-- The operation is in no other region than that of its parent. -/
theorem WellFormed.erase_eq_self {owner : Option OpId} {region : List OpId}
    (held : p.region owner = .ok region) (apart : op.parent ≠ owner) :
    region.erase id = region := by
  apply List.erase_of_not_mem
  intro mem
  obtain ⟨same, foundSame, isParent⟩ := wf.inside owner region held id mem
  rw [found] at foundSame
  cases foundSame
  exact apart isParent

theorem WellFormed.body_without : (p.without id op).body = p.body.erase id := by
  have held : p.region none = .ok p.body := rfl
  have left : (p.without id op).region none = .ok _ := region_without_old held (by simp)
  have body := Except.ok.inj left
  rw [wf.filter_ne_eq_erase held] at body
  by_cases top : op.parent = none
  · rwa [if_pos top.symm] at body
  · rwa [if_neg (Ne.symm top), ← wf.erase_eq_self found held top] at body

theorem WellFormed.op?_without_kept {other : OpId} {old : Op} (here : p.op? other = some old)
    (outside : other ∉ p.subtree id) :
    (p.without id op).op? other = some { old with region := old.region.erase id } := by
  have held := region_of_op? here
  rw [op?_without, if_neg outside, here]
  by_cases owner : op.parent = some other
  · rw [if_pos owner, Option.map_some, wf.filter_ne_eq_erase held]
  · rw [if_neg owner, wf.erase_eq_self found held owner]

theorem WellFormed.op?_without_eq_none_iff (other : OpId) :
    (p.without id op).op? other = none ↔ p.op? other = none ∨ p.Encloses id other := by
  rw [← wf.mem_subtree found]
  by_cases gone : other ∈ p.subtree id
  · simp [op?_without, gone]
  · cases here : p.op? other with
    | none => simp [op?_without, gone, here]
    | some old => simp [wf.op?_without_kept found here gone, gone]

/-- A walk goes past the operation and what it encloses, and meets all else as before. -/
theorem WellFormed.walkRegion_without {depth : Nat} {region : List OpId}
    (deep : ∀ other ∈ region, p.ops.size ≤ other + depth) :
    (p.without id op).walkRegion depth region =
      (p.walkRegion depth region).filter (· ∉ p.subtree id) := by
  have dead := (wf.op?_without_eq_none_iff found id).mpr (Or.inr .refl)
  induction depth generalizing region with
  | zero => rfl
  | succ depth ih =>
    rw [walkRegion, walkRegion, List.filter_flatMap]
    apply List.flatMap_congr
    intro other mem
    cases here : p.op? other with
    | none =>
      have stillDead := (wf.op?_without_eq_none_iff found other).mpr (Or.inl here)
      simp only [stillDead, List.filter_nil]
    | some old =>
      by_cases gone : other ∈ p.subtree id
      · have encloses := (wf.mem_subtree found).mp gone
        have nowDead := (wf.op?_without_eq_none_iff found other).mpr (Or.inr encloses)
        have nothing : (other :: p.walkRegion depth old.region).filter (· ∉ p.subtree id) = [] := by
          rw [List.filter_eq_nil_iff]
          intro visited visit
          have below := wf.encloses_of_visit here (deep other mem) visit
          simpa using (wf.mem_subtree found).mpr (encloses.trans below)
        simp only [nowDead, nothing]
      · simp only [wf.op?_without_kept found here gone]
        rw [walkRegion_erase_dead dead, ih (wf.deep_region here (deep other mem)),
          List.filter_cons_of_pos (by simpa using gone)]

theorem WellFormed.erased_without : p.Erased id op (p.without id op) where
  name := name_modifyRegion p op.parent _
  values := values_modifyRegion p op.parent _
  size := by rw [Program.without, size_ops_clear, size_ops_modifyRegion]
  dead := wf.op?_without_eq_none_iff found
  kept := by
    intro other old here outside
    rw [← wf.mem_subtree found] at outside
    rw [wf.op?_without_kept found here outside]
    split
    · rfl
    · rename_i apart
      rw [wf.erase_eq_self found (region_of_op? here) apart]
  body := by
    rw [wf.body_without found]
    split
    · rfl
    · rename_i nested
      exact wf.erase_eq_self found rfl nested
  walk := by
    have dead := (wf.op?_without_eq_none_iff found id).mpr (Or.inr .refl)
    rw [walk, wf.body_without found, walkRegion_erase_dead dead, Program.without, size_ops_clear,
      size_ops_modifyRegion, ← Program.without, wf.walkRegion_without found (Forest.deep_body p)]
    apply List.filter_congr
    intro other _
    exact decide_eq_decide.mpr (not_congr (wf.mem_subtree found))

end

/-- To erase a live operation of a well-formed program is to take it away with all that it encloses, and
nothing else. Where no operation is, the edit fails and the program stays as it was. -/
theorem erase_removes_subtree {p : Program} (wf : p.WellFormed) (id : OpId) :
    (∀ op, p.op? id = some op → ∃ q, p.erase id = .ok (op, q) ∧ p.Erased id op q) ∧
    (p.op? id = none →
      p.erase id = .error (.deadOp id) ∧ Edit.erase id p = .error (.ir (.deadOp id)) p) := by
  constructor
  · intro op found
    exact ⟨p.without id op, erase_eq found (wf.exists_region found), wf.erased_without found⟩
  · intro dead
    have fails : p.erase id = .error (.deadOp id) := by simp only [erase, dead]
    have failsEdit : Edit.ofExcept (p.erase id) p = .error (.ir (.deadOp id)) p := by
      rw [fails]
      rfl
    exact ⟨fails, (get_bind _ p).trans (bind_of_error failsEdit)⟩

/-- An operation two levels above another one is erased. The lower one is dead then and cannot be erased
again, and what follows after them stays. -/
theorem erase_removes_subtree_nested :
    let test (parent : OpId) (name : String) : Request :=
      .push (some parent) { kind := .bare name } rfl []
    let p := Request.reach "in" [.addFunction "f" [] none, test 0 "test.outer", test 1 "test.inner",
      test 2 "test.leaf", test 0 "test.after"]
    p.WellFormed ∧ p.walk = [0, 1, 2, 3, 4] ∧ ∃ op q, p.erase 1 = .ok (op, q) ∧ p.Erased 1 op q ∧
      q.walk = [0, 4] ∧ q.erase 3 = .error (.deadOp 3) := by
  intro test p
  have wf : p.WellFormed := wellFormed_reach _ _ rfl
  have live : (p.op? 1).isSome = true := by decide +kernel
  obtain ⟨op, found⟩ := Option.isSome_iff_exists.mp live
  obtain ⟨q, done, erased⟩ := (erase_removes_subtree wf 1).1 op found
  have left : (p.erase 1).toOption.map (fun after => (after.2.walk, after.2.op? 3)) =
      some ([0, 4], none) := by decide +kernel
  rw [done] at left
  obtain ⟨walk, dead⟩ := Prod.mk.inj (Option.some.inj left)
  exact ⟨wf, by decide +kernel, op, q, done, erased, walk,
    ((erase_removes_subtree (wf.erase done) 3).2 dead).1⟩

end RngLowering.Program
