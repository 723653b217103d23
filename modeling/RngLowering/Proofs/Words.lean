import Mathlib.Data.Nat.Digits.Defs
import Mathlib.Data.Int.ModEq
import RngLowering.Ty

set_option autoImplicit false

namespace RngLowering

theorem bitLimit_of_le {bits : Nat} (fits : bits ≤ maxBits) : bitLimit bits = 2 ^ bits := by
  simp [bitLimit, Nat.min_eq_left fits]

theorem chunk_eq {value : Nat} (fits : value < wordLimit) (width index : Nat) :
    chunk value width index = value / 2 ^ (index * width) % 2 ^ width := by
  unfold chunk
  have inWord : value / 2 ^ (index * width) < wordLimit :=
    Nat.lt_of_le_of_lt (Nat.div_le_self _ _) fits
  dsimp only
  split
  · rename_i past
    have high : value < 2 ^ (index * width) :=
      Nat.lt_of_lt_of_le fits (Nat.pow_le_pow_right (by decide) past)
    rw [Nat.div_eq_of_lt high, Nat.zero_mod]
  · rw [Nat.shiftRight_eq_div_pow]
    by_cases narrow : width ≤ maxBits
    · rw [truncate, bitLimit_of_le narrow]
    · have wide : maxBits ≤ width := Nat.le_of_not_le narrow
      have limit : bitLimit width = wordLimit := by rw [bitLimit, Nat.min_eq_right wide, wordLimit]
      have below : wordLimit ≤ 2 ^ width := Nat.pow_le_pow_right (by decide) wide
      rw [truncate_of_lt (limit ▸ inWord), Nat.mod_eq_of_lt (Nat.lt_of_lt_of_le inWord below)]

/-- The lowest digits of a number stand for what is left of it below the next power. -/
theorem ofDigits_range (base value count : Nat) :
    Nat.ofDigits base ((List.range count).map fun index => value / base ^ index % base) =
      value % base ^ count := by
  induction count with
  | zero => simp [Nat.mod_one]
  | succ count ih =>
    rw [List.range_succ, List.map_append, Nat.ofDigits_append, ih, List.length_map, List.length_range,
      List.map_singleton, Nat.ofDigits_singleton, Nat.mod_pow_succ]

/-- The chunks of a word, the least significant first, are its digits. -/
theorem ofDigits_chunks {value : Nat} (fits : value < wordLimit) (width count : Nat) :
    Nat.ofDigits (2 ^ width) (chunks value width count).reverse = value % 2 ^ (width * count) := by
  have digits : (chunks value width count).reverse =
      (List.range count).map fun index => value / (2 ^ width) ^ index % 2 ^ width := by
    rw [chunks, ← List.map_reverse, List.reverse_reverse]
    apply List.map_congr_left
    intro index _
    rw [chunk_eq fits, ← Nat.pow_mul, Nat.mul_comm]
  rw [digits, ofDigits_range, ← Nat.pow_mul]

theorem lt_of_mem_chunks {value width count chunk : Nat} (fits : value < wordLimit)
    (mem : chunk ∈ chunks value width count) : chunk < 2 ^ width := by
  obtain ⟨index, -, rfl⟩ := List.mem_map.mp mem
  rw [chunk_eq fits]
  exact Nat.mod_lt _ (Nat.two_pow_pos width)

/-- The integer that bits of a type stand for: in two's complement if the type is signed. -/
def IntTy.read (ty : IntTy) (bits : Nat) : Int :=
  if ty.isSigned then (BitVec.ofNat ty.bits bits).toInt else bits

/-- The signed reading of the low bits, by the highest of them. -/
theorem toInt_ofNat_eq {bits : Nat} (positive : 0 < bits) (fits : bits ≤ maxBits) (value : Nat) :
    (BitVec.ofNat bits value).toInt =
      if value.testBit (bits - 1) then (truncate bits value : Int) - 2 ^ bits
      else truncate bits value := by
  have msb : (BitVec.ofNat bits value).msb = value.testBit (bits - 1) := by
    rw [BitVec.msb_eq_getLsbD_last, BitVec.getLsbD_ofNat]
    simp [positive]
  rw [BitVec.toInt_eq_msb_cond, msb, BitVec.toNat_ofNat, truncate, bitLimit_of_le fits]
  push_cast
  rfl

/-- Widening with the sign bit keeps the signed reading. -/
theorem signExtend_emod {source target : Nat} (positive : 0 < source) (wider : source ≤ target)
    (fits : target ≤ maxBits) (value : Nat) :
    (signExtend value source target : Int) % 2 ^ target =
      (BitVec.ofNat source value).toInt % 2 ^ target := by
  have limit : bitLimit target = 2 ^ target := bitLimit_of_le fits
  have sourceLimit : bitLimit source = 2 ^ source := bitLimit_of_le (Nat.le_trans wider fits)
  rw [toInt_ofNat_eq positive (Nat.le_trans wider fits)]
  unfold signExtend
  split
  · rename_i narrow
    have same : source = target := by omega
    subst same
    split
    · rw [Int.sub_emod_right]
    · rfl
  · split
    · -- the ones above the source make up a power that the target does not see
      have inWord : 2 ^ source ≤ wordLimit := sourceLimit ▸ bitLimit_le_wordLimit source
      have unseen : (2 ^ target : Int) ∣ wordLimit := by
        rw [wordLimit, Nat.pow_eq]
        push_cast
        exact pow_dvd_pow 2 fits
      have cast : ((truncate source value + (wordLimit - 2 ^ source) : Nat) : Int) =
          (truncate source value : Int) - 2 ^ source + wordLimit := by
        rw [Nat.cast_add, Nat.cast_sub inWord]
        push_cast
        ring
      rw [truncate, limit, sourceLimit, Int.natCast_emod, cast]
      push_cast
      rw [Int.emod_emod_of_dvd _ (dvd_refl _)]
      exact Int.emod_eq_emod_iff_emod_sub_eq_zero.mpr (by simpa using Int.emod_eq_zero_of_dvd unseen)
    · rfl

end RngLowering
