import RngLowering.Numeral

set_option autoImplicit false

namespace RngLowering.Numeral

theorem digitValue?_of_isDigit {c : Char} (digit : c.isDigit = true) :
    digitValue? 10 c = some (c.toNat - '0'.toNat) := by
  have upper : c.toNat ≤ 57 := by
    simp only [Char.isDigit, Bool.and_eq_true, decide_eq_true_eq] at digit
    exact digit.2
  have small : c.toNat - 48 < 10 := by omega
  simp [digitValue?, digit, small]

/-- Reading on never makes a value smaller. -/
theorem le_ofDigitChars (digits : List Char) (acc : Nat) :
    acc ≤ Nat.ofDigitChars 10 digits acc := by
  induction digits generalizing acc with
  | nil => simp
  | cons c rest ih =>
    rw [Nat.ofDigitChars_cons]
    have later := ih (10 * acc + (c.toNat - '0'.toNat))
    omega

theorem readDigits_eq_ofDigitChars {limit : Nat} {digits : List Char} {acc : Nat}
    (all : ∀ c ∈ digits, c.isDigit = true) (fits : Nat.ofDigitChars 10 digits acc < limit) :
    readDigits 10 limit acc digits = .ok (Nat.ofDigitChars 10 digits acc) := by
  induction digits generalizing acc with
  | nil => simp [readDigits]
  | cons c rest ih =>
    rw [Nat.ofDigitChars_cons] at fits ⊢
    have small : 10 * acc + (c.toNat - '0'.toNat) < limit :=
      Nat.lt_of_le_of_lt (le_ofDigitChars rest _) fits
    have next : acc * 10 + (c.toNat - '0'.toNat) = 10 * acc + (c.toNat - '0'.toNat) := by omega
    simp only [readDigits, digitValue?_of_isDigit (all c (by simp)), next, small, ↓reduceIte]
    exact ih (fun d mem => all d (by simp [mem])) fits

theorem isDigit_of_mem_toDigits {n : Nat} {c : Char} (mem : c ∈ Nat.toDigits 10 n) :
    c.isDigit = true :=
  Nat.isDigit_of_mem_toDigits (by decide) (by decide) mem

/-- A text that does not begin with a plus sign is read digit by digit. -/
theorem readUnsigned_cons {base limit : Nat} {c : Char} {rest : List Char} (plain : c ≠ '+') :
    readUnsigned base limit (c :: rest) = readDigits base limit 0 (c :: rest) := by
  simp [readUnsigned, plain]

theorem readUnsigned_toDigits {limit n : Nat} (fits : n < limit) :
    readUnsigned 10 limit (Nat.toDigits 10 n) = .ok n := by
  have digits : ∀ c ∈ Nat.toDigits 10 n, c.isDigit = true := fun c => isDigit_of_mem_toDigits
  have value : Nat.ofDigitChars 10 (Nat.toDigits 10 n) 0 = n := Nat.ofDigitChars_ten_toDigits
  cases shape : Nat.toDigits 10 n with
  | nil => exact absurd shape Nat.toDigits_ne_nil
  | cons c rest =>
    rw [shape] at digits value
    have plain : c ≠ '+' := by
      rintro rfl
      exact absurd (digits '+' (by simp)) (by decide)
    rw [readUnsigned_cons plain, readDigits_eq_ofDigitChars digits (by omega), value]

/-- A literal that is all digits is read in base ten. -/
theorem readLiteral_of_digits {limit : Nat} {text : List Char}
    (digits : ∀ c ∈ text, c.isDigit = true) :
    readLiteral limit text = readUnsigned 10 limit text := by
  have kept : text.filter (· ≠ '_') = text := by
    rw [List.filter_eq_self]
    intro c mem
    have digit := digits c mem
    by_cases under : c = '_'
    · rw [under] at digit
      exact absurd digit (by decide)
    · simp [under]
  unfold readLiteral
  rw [kept]
  split
  · exact absurd (digits 'x' (by simp)) (by decide)
  · exact absurd (digits 'X' (by simp)) (by decide)
  · rfl

theorem readLiteral_toDigits {limit n : Nat} (fits : n < limit) :
    readLiteral limit (Nat.toDigits 10 n) = .ok n := by
  rw [readLiteral_of_digits fun c => isDigit_of_mem_toDigits, readUnsigned_toDigits fits]

theorem readDigits_lt {base limit acc n : Nat} {digits : List Char} (small : acc < limit)
    (read : readDigits base limit acc digits = .ok n) : n < limit := by
  induction digits generalizing acc with
  | nil =>
    cases read
    exact small
  | cons c rest ih =>
    simp only [readDigits] at read
    split at read
    · cases read
    · split at read
      · rename_i below
        exact ih below read
      · cases read

/-- What is read stays below the limit. -/
theorem readUnsigned_lt {base limit n : Nat} {text : List Char} (positive : 0 < limit)
    (read : readUnsigned base limit text = .ok n) : n < limit := by
  unfold readUnsigned at read
  split at read
  · cases read
  · cases read
  · exact readDigits_lt positive read
  · exact readDigits_lt positive read

theorem readLiteral_lt {limit n : Nat} {text : List Char} (positive : 0 < limit)
    (read : readLiteral limit text = .ok n) : n < limit := by
  unfold readLiteral at read
  split at read <;> exact readUnsigned_lt positive read

end RngLowering.Numeral
