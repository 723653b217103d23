import Mathlib.Algebra.BigOperators.Group.Finset.Basic
import RngLowering.Proofs.Words

set_option autoImplicit false

namespace RngLowering

/-- The number that digits of `width` bits stand for, the most significant first. -/
def positional (width : Nat) (digits : List Nat) : Nat :=
  ∑ index ∈ Finset.range digits.length,
    digits.getD index 0 * 2 ^ (width * (digits.length - 1 - index))

section

variable {width : Nat}

theorem positional_cons (width digit : Nat) (rest : List Nat) :
    positional width (digit :: rest) = digit * 2 ^ (width * rest.length) + positional width rest := by
  rw [positional, List.length_cons, Finset.sum_range_succ', Nat.add_comm, positional]
  congr 1
  apply Finset.sum_congr rfl
  intro index _
  rw [List.getD_cons_succ]
  congr 3
  omega

theorem positional_eq_ofDigits (width : Nat) (digits : List Nat) :
    positional width digits = Nat.ofDigits (2 ^ width) digits.reverse := by
  induction digits with
  | nil => rfl
  | cons digit rest ih =>
    rw [positional_cons, ih, List.reverse_cons, Nat.ofDigits_append, Nat.ofDigits_singleton,
      List.length_reverse, ← Nat.pow_mul, Nat.add_comm, Nat.mul_comm]

/-- As many digits that stand for the same number are the same digits. -/
theorem eq_of_positional_eq {first second : List Nat} (lengths : first.length = second.length)
    (smallFirst : ∀ digit ∈ first, digit < 2 ^ width)
    (smallSecond : ∀ digit ∈ second, digit < 2 ^ width)
    (same : positional width first = positional width second) : first = second := by
  rcases Nat.eq_zero_or_pos width with rfl | positive
  · -- digits of no bits are zeros
    have zeros : ∀ digits : List Nat, (∀ digit ∈ digits, digit < 2 ^ 0) →
        digits = List.replicate digits.length 0 := by
      intro digits small
      exact List.eq_replicate_of_mem fun digit mem => Nat.lt_one_iff.mp (small digit mem)
    rw [zeros first smallFirst, zeros second smallSecond, lengths]
  · rw [positional_eq_ofDigits, positional_eq_ofDigits] at same
    apply List.reverse_injective
    refine Nat.ofDigits_inj_of_len_eq (Nat.one_lt_two_pow (Nat.ne_of_gt positive)) ?_ ?_ ?_ same
    · rw [List.length_reverse, List.length_reverse, lengths]
    · intro digit mem
      exact smallFirst digit (List.mem_reverse.mp mem)
    · intro digit mem
      exact smallSecond digit (List.mem_reverse.mp mem)

end

theorem positional_chunks {value : Nat} (fits : value < wordLimit) (width count : Nat) :
    positional width (chunks value width count) = value % 2 ^ (width * count) := by
  rw [positional_eq_ofDigits, ofDigits_chunks fits]

/-- The chunks of a word are as many digits as asked for, of the width asked for, and stand for the low
part of the word. No other digits do. Where they reach over the whole word, they stand for the word
itself. -/
theorem chunks_expansion {value : Nat} (fits : value < 2 ^ 128) (width count : Nat) :
    (chunks value width count).length = count ∧
    (∀ digit ∈ chunks value width count, digit < 2 ^ width) ∧
    positional width (chunks value width count) = value % 2 ^ (width * count) ∧
    (∀ digits : List Nat, digits.length = count → (∀ digit ∈ digits, digit < 2 ^ width) →
      positional width digits = value % 2 ^ (width * count) → digits = chunks value width count) ∧
    (128 ≤ width * count → positional width (chunks value width count) = value) := by
  have inWord : value < wordLimit := fits
  have small : ∀ digit ∈ chunks value width count, digit < 2 ^ width :=
    fun _ mem => lt_of_mem_chunks inWord mem
  have low := positional_chunks inWord width count
  refine ⟨length_chunks value width count, small, low, ?_, ?_⟩
  · intro digits length smallDigits same
    exact eq_of_positional_eq (length.trans (length_chunks value width count).symm) smallDigits small
      (same.trans low.symm)
  · intro reaches
    rw [low]
    exact Nat.mod_eq_of_lt (Nat.lt_of_lt_of_le fits (Nat.pow_le_pow_right (by decide) reaches))

/-- Three chunks of 48 bits reach over a word: the first of them is cut off at its end. -/
theorem chunks_expansion_wide :
    chunks (2 ^ 128 - 1) 48 3 = [2 ^ 32 - 1, 2 ^ 48 - 1, 2 ^ 48 - 1] ∧
      positional 48 (chunks (2 ^ 128 - 1) 48 3) = 2 ^ 128 - 1 :=
  ⟨by decide +kernel, (chunks_expansion (by decide) 48 3).2.2.2.2 (by decide)⟩

section

variable {source target : Nat}

theorem signExtend_of_le (narrower : target ≤ source) (value : Nat) :
    signExtend value source target = truncate target value :=
  if_pos (Or.inr narrower)

theorem signExtend_lt (fits : target ≤ maxBits) (value source : Nat) :
    signExtend value source target < 2 ^ target := by
  rw [← bitLimit_of_le fits]
  unfold signExtend
  split
  · exact truncate_lt target value
  · rename_i wider
    have narrow : source ≤ target := by omega
    split
    · exact truncate_lt target _
    · apply Nat.lt_of_lt_of_le (truncate_lt source value)
      rw [bitLimit_of_le fits, bitLimit_of_le (Nat.le_trans narrow fits)]
      exact Nat.pow_le_pow_right (by decide) narrow

variable (positive : 0 < source) (wider : source ≤ target) (fits : target ≤ maxBits)

include positive wider fits

/-- Widening gives the bits of the signed reading. -/
theorem ofNat_signExtend (value : Nat) :
    BitVec.ofNat target (signExtend value source target) =
      (BitVec.ofNat source value).signExtend target := by
  apply BitVec.eq_of_toNat_eq
  rw [BitVec.toNat_ofNat, BitVec.signExtend, BitVec.toNat_ofInt, Nat.cast_pow, Nat.cast_ofNat,
    ← signExtend_emod positive wider fits]
  norm_cast

theorem signExtend_eq_toNat (value : Nat) :
    signExtend value source target = ((BitVec.ofNat source value).signExtend target).toNat := by
  rw [← ofNat_signExtend positive wider fits, BitVec.toNat_ofNat,
    Nat.mod_eq_of_lt (signExtend_lt fits value source)]

/-- The wide bits are read as the narrow ones. -/
theorem toInt_signExtend (value : Nat) :
    (BitVec.ofNat target (signExtend value source target)).toInt =
      (BitVec.ofNat source value).toInt := by
  rw [ofNat_signExtend positive wider fits, BitVec.toInt_signExtend_of_le wider]

end

/-- A widened word is a word of the target. It stands for the integer that the low bits of the source
stand for in two's complement, whatever the bits above them, and a source that is wider than the target
is cut. Widening in two stages is widening at once. -/
theorem signExtend_twosComplement (value : Nat) :
    (∀ source target, 1 ≤ source → target ≤ 128 →
      signExtend value source target < 2 ^ target ∧
      (source ≤ target →
        (signExtend value source target : Int) ≡ (BitVec.ofNat source value).toInt
            [ZMOD 2 ^ target] ∧
          signExtend (value % 2 ^ source) source target = signExtend value source target) ∧
      (target < source → signExtend value source target = value % 2 ^ target)) ∧
    ∀ first second third, 1 ≤ first → first ≤ second → second ≤ third → third ≤ 128 →
      signExtend (signExtend value first second) second third = signExtend value first third := by
  constructor
  · intro source target positive fits
    refine ⟨signExtend_lt fits value source, ?_, ?_⟩
    · intro wider
      refine ⟨signExtend_emod positive wider fits value, ?_⟩
      have lowBits : BitVec.ofNat source (value % 2 ^ source) = BitVec.ofNat source value := by
        apply BitVec.eq_of_toNat_eq
        rw [BitVec.toNat_ofNat, BitVec.toNat_ofNat, Nat.mod_mod]
      rw [signExtend_eq_toNat positive wider fits, signExtend_eq_toNat positive wider fits, lowBits]
    · intro narrower
      rw [signExtend_of_le (Nat.le_of_lt narrower), truncate, bitLimit_of_le fits]
  · intro first second third positive wider widest fits
    have fitsSecond : second ≤ maxBits := Nat.le_trans widest fits
    have positiveSecond : 0 < second := Nat.lt_of_lt_of_le positive wider
    -- both stand for the integer that the narrowest bits are read as
    rw [signExtend_eq_toNat positiveSecond widest fits, BitVec.signExtend,
      toInt_signExtend positive wider fitsSecond,
      signExtend_eq_toNat positive (Nat.le_trans wider widest) fits, BitVec.signExtend]

/-- A negative byte with stray bits above it, widened to a whole word at once and in two stages. -/
theorem signExtend_twosComplement_stray :
    (signExtend 0x7f80 8 128 : Int) ≡ -128 [ZMOD 2 ^ 128] ∧
      signExtend (signExtend 0x7f80 8 16) 16 128 = signExtend 0x7f80 8 128 := by
  obtain ⟨widened, staged⟩ := signExtend_twosComplement 0x7f80
  exact ⟨((widened 8 128 (by decide) (by decide)).2.1 (by decide)).1,
    staged 8 16 128 (by decide) (by decide) (by decide) (by decide)⟩

end RngLowering
