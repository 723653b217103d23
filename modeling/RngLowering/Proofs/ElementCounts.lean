import Mathlib.Algebra.BigOperators.Ring.List
import Mathlib.Algebra.Order.BigOperators.GroupWithZero.List
import Mathlib.Algebra.Order.Ring.Nat
import Mathlib.Data.List.TakeWhile
import RngLowering.Ty

set_option autoImplicit false

namespace RngLowering

def leadingDims (shape : List Nat) : List Nat := shape.takeWhile (· ≠ 0)

/-- There are no elements, but the dimensions before the first zero ask for too many. -/
def LateZero (shape : List Nat) : Prop := 0 ∈ shape ∧ 2 ^ 64 ≤ (leadingDims shape).prod

instance (shape : List Nat) : Decidable (LateZero shape) :=
  inferInstanceAs (Decidable (_ ∧ _))

section

variable {shape : List Nat}

theorem leadingDims_cons {dim : Nat} (nonzero : dim ≠ 0) (rest : List Nat) :
    leadingDims (dim :: rest) = dim :: leadingDims rest := by
  simp [leadingDims, nonzero]

theorem leadingDims_of_zero_not_mem (full : 0 ∉ shape) : leadingDims shape = shape :=
  List.takeWhile_eq_self_iff.mpr fun _ mem => decide_eq_true fun zero => full (zero ▸ mem)

theorem prod_leadingDims_pos (shape : List Nat) : 0 < (leadingDims shape).prod := by
  apply List.prod_pos
  intro dim mem
  have nonzero : decide (dim ≠ 0) = true := List.mem_takeWhile_imp (p := fun dim => dim ≠ 0) mem
  exact Nat.pos_of_ne_zero (of_decide_eq_true nonzero)

theorem lateZero_iff_of_mem (empty : 0 ∈ shape) :
    LateZero shape ↔ ¬ (leadingDims shape).prod < 2 ^ 64 := by
  rw [LateZero, Nat.not_lt]
  exact and_iff_right empty

/-- The dimensions before the first zero are too large exactly if all of them are, unless a zero comes
late. -/
theorem not_lateZero_iff :
    ¬ LateZero shape ↔ ((leadingDims shape).prod < 2 ^ 64 ↔ shape.prod < 2 ^ 64) := by
  by_cases empty : 0 ∈ shape
  · have small : shape.prod < 2 ^ 64 := by
      rw [List.prod_eq_zero empty]
      exact Nat.two_pow_pos 64
    rw [lateZero_iff_of_mem empty, not_not, iff_true_right small]
  · rw [leadingDims_of_zero_not_mem empty]
    exact iff_of_true (fun late => empty late.1) Iff.rfl

theorem foldlM_sizeMul?_zero (shape : List Nat) : shape.foldlM sizeMul? 0 = some 0 := by
  induction shape with
  | nil => rfl
  | cons dim rest ih =>
    have first : sizeMul? 0 dim = some 0 := by simp [sizeMul?, sizeLimit]
    rw [List.foldlM_cons, first]
    exact ih

/-- The products grow up to the first zero, so that the one before it decides for all of them. -/
theorem foldlM_sizeMul? {product : Nat} (positive : 0 < product) (fits : product < sizeLimit)
    (shape : List Nat) :
    shape.foldlM sizeMul? product =
      if product * (leadingDims shape).prod < sizeLimit then some (product * shape.prod)
      else none := by
  induction shape generalizing product with
  | nil => simp [leadingDims, fits]
  | cons dim rest ih =>
    rw [List.foldlM_cons, sizeMul?]
    by_cases zero : dim = 0
    · subst zero
      have small : product * 0 < sizeLimit := by omega
      rw [if_pos small, Nat.mul_zero]
      simpa [leadingDims, fits] using foldlM_sizeMul?_zero rest
    · have grown : 0 < product * dim := Nat.mul_pos positive (Nat.pos_of_ne_zero zero)
      rw [leadingDims_cons zero, List.prod_cons, List.prod_cons, ← Nat.mul_assoc, ← Nat.mul_assoc]
      by_cases small : product * dim < sizeLimit
      · rw [if_pos small]
        exact ih grown small
      · have larger : product * dim ≤ product * dim * (leadingDims rest).prod :=
          Nat.le_mul_of_pos_right _ (prod_leadingDims_pos rest)
        rw [if_neg small, if_neg (by omega)]
        rfl

end

theorem ite_some_eq_iff {α : Type} {p q : Prop} [Decidable p] [Decidable q] {a : α} :
    ((if p then some a else none) = if q then some a else none) ↔ (p ↔ q) := by
  by_cases left : p <;> by_cases right : q <;> simp [left, right]

namespace Ty

section

variable (shape : List Nat) (elem : IntTy)

theorem count?_tensor :
    (Ty.tensor shape elem).count? =
      if (leadingDims shape).prod < 2 ^ 64 then some shape.prod else none := by
  have counted := foldlM_sizeMul? Nat.one_pos (by decide) shape
  rw [Nat.one_mul, Nat.one_mul] at counted
  exact counted

theorem packedBits?_tensor :
    (Ty.tensor shape elem).packedBits? =
      if (leadingDims shape).prod < 2 ^ 64 ∧ shape.prod * elem.bits < 2 ^ 64 then
        some (shape.prod * elem.bits)
      else none := by
  rw [packedBits?, count?_tensor, ite_and]
  split
  · rfl
  · rfl

theorem count?_eq_prod_iff :
    (Ty.tensor shape elem).count? = (if shape.prod < 2 ^ 64 then some shape.prod else none) ↔
      ¬ LateZero shape := by
  rw [count?_tensor, ite_some_eq_iff, not_lateZero_iff]

/-- A shape without elements has no bits, whatever their width. -/
theorem packedBits?_eq_prod_iff :
    (Ty.tensor shape elem).packedBits? =
      (if shape.prod < 2 ^ 64 ∧ shape.prod * elem.bits < 2 ^ 64 then
        some (shape.prod * elem.bits)
      else none) ↔ ¬ LateZero shape := by
  rw [packedBits?_tensor, ite_some_eq_iff, not_lateZero_iff, and_congr_left_iff]
  refine ⟨fun agree => ?_, fun agree _ => agree⟩
  by_cases empty : 0 ∈ shape
  · exact agree (by simp [List.prod_eq_zero empty])
  · rw [leadingDims_of_zero_not_mem empty]

theorem count?_perm_iff {shape other : List Nat} (order : other.Perm shape) (elem : IntTy) :
    (Ty.tensor other elem).count? = (Ty.tensor shape elem).count? ↔
      (LateZero other ↔ LateZero shape) := by
  rw [count?_tensor, count?_tensor, order.prod_eq, ite_some_eq_iff]
  by_cases empty : 0 ∈ shape
  · rw [lateZero_iff_of_mem empty, lateZero_iff_of_mem (order.mem_iff.mpr empty), not_iff_not]
  · -- without a zero all dimensions count, and their order does not matter
    have full : 0 ∉ other := fun mem => empty (order.mem_iff.mp mem)
    rw [leadingDims_of_zero_not_mem empty, leadingDims_of_zero_not_mem full, order.prod_eq]
    exact iff_of_true Iff.rfl (iff_of_false (fun late => full late.1) fun late => empty late.1)

end

/-- The count is the product of the dimensions, and there is none if those before the first zero are too
large. So exactly the shapes without a late zero have the product as their count where it is a size, and
no count otherwise, and the same holds of the bits of all elements. The order of the dimensions matters
only to whether a zero comes late. -/
theorem count_of_shape (shape : List Nat) (elem : IntTy) :
    (Ty.tensor shape elem).count? =
      (if (leadingDims shape).prod < 2 ^ 64 then some shape.prod else none) ∧
    (Ty.tensor shape elem).packedBits? =
      (if (leadingDims shape).prod < 2 ^ 64 ∧ shape.prod * elem.bits < 2 ^ 64 then
        some (shape.prod * elem.bits)
      else none) ∧
    ((Ty.tensor shape elem).count? = (if shape.prod < 2 ^ 64 then some shape.prod else none) ↔
      ¬ LateZero shape) ∧
    ((Ty.tensor shape elem).packedBits? =
      (if shape.prod < 2 ^ 64 ∧ shape.prod * elem.bits < 2 ^ 64 then
        some (shape.prod * elem.bits)
      else none) ↔ ¬ LateZero shape) ∧
    ∀ other : List Nat, other.Perm shape →
      ((Ty.tensor other elem).count? = (Ty.tensor shape elem).count? ↔
        (LateZero other ↔ LateZero shape)) := by
  refine ⟨count?_tensor shape elem, packedBits?_tensor shape elem, count?_eq_prod_iff shape elem,
    packedBits?_eq_prod_iff shape elem, ?_⟩
  intro other order
  exact count?_perm_iff order elem

/-- Two large dimensions and then a zero make no element, but they are not counted. With the zero in front
they are. -/
theorem late_zero_not_counted :
    [2 ^ 32, 2 ^ 32, 0].prod = 0 ∧ LateZero [2 ^ 32, 2 ^ 32, 0] ∧
      (Ty.tensor [2 ^ 32, 2 ^ 32, 0] (.signless 32)).count? = none ∧
      (Ty.tensor [2 ^ 32, 2 ^ 32, 0] (.signless 32)).packedBits? = none ∧
      (Ty.tensor [0, 2 ^ 32, 2 ^ 32] (.signless 32)).count? = some 0 := by
  decide +kernel

end Ty

end RngLowering
