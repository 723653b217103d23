/-!
Words of at most 128 bits, held as natural numbers.

An integer of `bits` bits is a number below `2 ^ min bits 128`. Arithmetic is done in `Nat` and
brought back into range by `truncate`.
-/

set_option autoImplicit false

namespace RngLowering

/-- Widest integer a word can hold. -/
def maxBits : Nat := 128

/-- One more than the largest word. -/
def wordLimit : Nat := Nat.pow 2 maxBits

/-- One more than the largest integer of `bits` bits. -/
def bitLimit (bits : Nat) : Nat := Nat.pow 2 (min bits maxBits)

/-- All ones in the low `bits` bits. -/
def mask (bits : Nat) : Nat := bitLimit bits - 1

/-- The low `bits` bits. -/
def truncate (bits value : Nat) : Nat := value % bitLimit bits

/-- Widen the low `source` bits to `target` bits, copying the sign bit upwards. A source of no bits,
or one at least as wide as the target, is cut to the target instead. -/
def signExtend (value source target : Nat) : Nat :=
  if source = 0 ∨ target ≤ source then truncate target value
  else if value.testBit (source - 1) then
    truncate target (truncate source value + (wordLimit - bitLimit source))
  else truncate source value

/-- The `index`-th chunk of `width` bits, counted from the least significant one. -/
def chunk (value width index : Nat) : Nat :=
  let shift := index * width
  if maxBits ≤ shift then 0 else truncate width (value >>> shift)

/-- The lowest `count` chunks of `width` bits, most significant first. -/
def chunks (value width count : Nat) : List Nat :=
  (List.range count).reverse.map (chunk value width)

theorem bitLimit_pos (bits : Nat) : 0 < bitLimit bits :=
  Nat.two_pow_pos _

theorem bitLimit_le_wordLimit (bits : Nat) : bitLimit bits ≤ wordLimit :=
  Nat.pow_le_pow_right (by decide) (Nat.min_le_right _ _)

theorem truncate_lt (bits value : Nat) : truncate bits value < bitLimit bits :=
  Nat.mod_lt _ (bitLimit_pos bits)

theorem truncate_of_lt {bits value : Nat} (fits : value < bitLimit bits) :
    truncate bits value = value :=
  Nat.mod_eq_of_lt fits

@[simp] theorem truncate_truncate (bits value : Nat) :
    truncate bits (truncate bits value) = truncate bits value :=
  truncate_of_lt (truncate_lt bits value)

@[simp] theorem length_chunks (value width count : Nat) :
    (chunks value width count).length = count := by
  simp [chunks]

end RngLowering
