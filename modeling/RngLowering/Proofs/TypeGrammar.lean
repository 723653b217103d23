import Mathlib.Algebra.Order.Ring.Nat
import Mathlib.Data.List.Forall2
import Mathlib.Data.Set.Function
import RngLowering.Proofs.TypeText

set_option autoImplicit false

namespace RngLowering

namespace Numeral

/-- Decimal digits, at least one, and their value. -/
structure IsDecimal (digits : List Char) (n : Nat) : Prop where
  nonempty : digits ≠ []
  chars : ∀ c ∈ digits, c.isDigit = true
  value : Nat.ofDigitChars 10 digits 0 = n

/-- In base ten, letters are too large to be digits. -/
theorem isDigit_of_digitValue? {c : Char} {digit : Nat} (read : digitValue? 10 c = some digit) :
    c.isDigit = true := by
  obtain ⟨found, small⟩ := Option.filter_eq_some_iff.mp read
  by_contra other
  rw [if_neg other] at found
  have below : digit < 10 := of_decide_eq_true small
  split at found
  · cases found
    omega
  · split at found
    · cases found
      omega
    · cases found

theorem ofDigitChars_of_readDigits {limit acc n : Nat} {digits : List Char}
    (read : readDigits 10 limit acc digits = .ok n) :
    (∀ c ∈ digits, c.isDigit = true) ∧ Nat.ofDigitChars 10 digits acc = n := by
  induction digits generalizing acc with
  | nil =>
    cases read
    simp
  | cons c rest ih =>
    simp only [readDigits] at read
    split at read
    · cases read
    · rename_i digit found
      have isDigit := isDigit_of_digitValue? found
      rw [digitValue?_of_isDigit isDigit] at found
      cases found
      split at read
      · obtain ⟨all, value⟩ := ih read
        refine ⟨by simpa [isDigit] using all, ?_⟩
        rw [Nat.ofDigitChars_cons, Nat.mul_comm]
        exact value
      · cases read

theorem readDigits_eq_ok_iff {limit acc n : Nat} {digits : List Char} (small : acc < limit) :
    readDigits 10 limit acc digits = .ok n ↔
      (∀ c ∈ digits, c.isDigit = true) ∧ Nat.ofDigitChars 10 digits acc = n ∧ n < limit := by
  constructor
  · intro read
    obtain ⟨all, value⟩ := ofDigitChars_of_readDigits read
    exact ⟨all, value, readDigits_lt small read⟩
  · rintro ⟨all, rfl, below⟩
    exact readDigits_eq_ofDigitChars all below

/-- A numeral is decimal digits, and a plus sign in front of them or not. -/
theorem readUnsigned_eq_ok_iff {limit n : Nat} {text : List Char} (positive : 0 < limit) :
    readUnsigned 10 limit text = .ok n ↔
      ∃ digits, (text = digits ∨ text = '+' :: digits) ∧ IsDecimal digits n ∧ n < limit := by
  have plain : ∀ digits : List Char, digits ≠ [] →
      (readDigits 10 limit 0 digits = .ok n ↔ IsDecimal digits n ∧ n < limit) := by
    intro digits nonempty
    rw [readDigits_eq_ok_iff positive]
    constructor
    · rintro ⟨all, value, below⟩
      exact ⟨⟨nonempty, all, value⟩, below⟩
    · rintro ⟨isDecimal, below⟩
      exact ⟨isDecimal.chars, isDecimal.value, below⟩
  constructor
  · intro read
    unfold readUnsigned at read
    split at read
    · cases read
    · cases read
    · rename_i digits notEmpty
      have nonempty : digits ≠ [] := by
        rintro rfl
        exact notEmpty rfl
      exact ⟨digits, .inr rfl, (plain digits nonempty).mp read⟩
    · rename_i notEmpty _ _
      exact ⟨text, .inl rfl, (plain text fun empty => notEmpty empty).mp read⟩
  · rintro ⟨digits, shape, isDecimal, below⟩
    have read := (plain digits isDecimal.nonempty).mpr ⟨isDecimal, below⟩
    obtain ⟨c, rest, rfl⟩ := List.exists_cons_of_ne_nil isDecimal.nonempty
    rcases shape with rfl | rfl
    · have noSign : c ≠ '+' := by
        rintro rfl
        exact absurd (isDecimal.chars '+' (by simp)) (by decide)
      rw [readUnsigned_cons noSign]
      exact read
    · exact read

theorem IsDecimal.not_mem {digits : List Char} {n : Nat} (isDecimal : IsDecimal digits n) {c : Char}
    (letter : c.isDigit = false) : c ∉ digits := by
  intro mem
  rw [isDecimal.chars c mem] at letter
  cases letter

end Numeral

open Numeral

/-- The ways to write an integer type: letters, and a width in digits. -/
def IntTy.Spelled (ty : IntTy) (text : List Char) : Prop :=
  ∃ digits, text = ty.sign.letters ++ digits ∧ IsDecimal digits ty.bits ∧
    1 ≤ ty.bits ∧ ty.bits ≤ 128

theorem Signedness.eq_letters_append {text rest : List Char} {sign : Signedness}
    (read : Signedness.read? text = some (sign, rest)) : text = sign.letters ++ rest := by
  unfold Signedness.read? at read
  split at read <;> cases read <;> rfl

theorem IntTy.ofChars?_eq_some_iff {text : List Char} {ty : IntTy} :
    IntTy.ofChars? text = some ty ↔ ty.Spelled text := by
  constructor
  · intro read
    obtain ⟨lower, upper⟩ := IntTy.isValid_iff.mp (IntTy.isValid_of_ofChars? read)
    simp only [IntTy.ofChars?, guard, Option.bind_eq_bind, Option.bind_eq_some_iff] at read
    obtain ⟨⟨sign, digits⟩, letters, _, checked, bits, width, _, -, made⟩ := read
    cases made
    have all : digits.all Char.isDigit = true := by
      by_contra other
      rw [if_neg other] at checked
      cases checked
    cases outcome : readUnsigned 10 (maxBits + 1) digits with
    | error fault =>
      rw [outcome] at width
      cases width
    | ok n =>
      rw [outcome] at width
      cases width
      obtain ⟨plain, shape, isDecimal, -⟩ := (readUnsigned_eq_ok_iff (by decide)).mp outcome
      rcases shape with rfl | rfl
      · exact ⟨digits, Signedness.eq_letters_append letters, isDecimal, lower, upper⟩
      · exact absurd (List.all_eq_true.mp all '+' (by simp)) (by decide)
  · rintro ⟨digits, rfl, isDecimal, lower, upper⟩
    have width : readUnsigned 10 (maxBits + 1) digits = .ok ty.bits :=
      (readUnsigned_eq_ok_iff (by decide)).mpr
        ⟨digits, .inl rfl, isDecimal, Nat.lt_succ_of_le upper⟩
    have valid : ty.isValid = true := IntTy.isValid_iff.mpr ⟨lower, upper⟩
    unfold IntTy.ofChars?
    rw [Signedness.read?_letters ty.sign isDecimal.nonempty isDecimal.chars]
    simp only [Option.bind_eq_bind, Option.bind_some, guard,
      List.all_eq_true.mpr isDecimal.chars, width, valid, Except.toOption, ↓reduceIte,
      Option.pure_def]

theorem IntTy.Spelled.not_mem {ty : IntTy} {text : List Char} (spelled : ty.Spelled text) {c : Char}
    (letter : c.isDigit = false) (other : c ∉ ['s', 'u', 'i']) : c ∉ text := by
  obtain ⟨digits, rfl, isDecimal, -⟩ := spelled
  rw [List.mem_append, not_or]
  refine ⟨?_, isDecimal.not_mem letter⟩
  cases ty.sign <;> simp_all [Signedness.letters]

/-- An integer type begins with none of the words before a bracket. -/
theorem IntTy.Spelled.enclosed?_eq_none {ty : IntTy} {text : List Char} (spelled : ty.Spelled text)
    {opening : String} (start : opening = "tensor<" ∨ opening = "memref<") :
    enclosed? opening text = none := by
  obtain ⟨digits, rfl, -⟩ := spelled
  rcases start with rfl | rfl
  · cases ty.sign <;> exact enclosed?_cons rfl (by decide) _
  · cases ty.sign <;> exact enclosed?_cons rfl (by decide) _

def IsPlainDim (text : List Char) (dim : Nat) : Prop := IsDecimal text dim ∧ dim < 2 ^ 64

def IsDim (text : List Char) (dim : Nat) : Prop :=
  ∃ digits, (text = digits ∨ text = '+' :: digits) ∧ IsPlainDim digits dim

theorem IsPlainDim.isDim {text : List Char} {dim : Nat} (plain : IsPlainDim text dim) :
    IsDim text dim :=
  ⟨text, .inl rfl, plain⟩

theorem IsDim.not_mem {text : List Char} {dim : Nat} (isDim : IsDim text dim) {c : Char}
    (letter : c.isDigit = false) (other : c ≠ '+') : c ∉ text := by
  obtain ⟨digits, rfl | rfl, plain⟩ := isDim
  · exact plain.1.not_mem letter
  · simp [other, plain.1.not_mem letter]

theorem IsDim.isPlainDim {text : List Char} {dim : Nat} (isDim : IsDim text dim)
    (noSign : '+' ∉ text) : IsPlainDim text dim := by
  obtain ⟨digits, rfl | rfl, plain⟩ := isDim
  · exact plain
  · exact absurd (by simp) noSign

theorem readDim?_eq_some_iff {text : List Char} {dim : Nat} :
    readDim? text = some dim ↔ IsDim text dim := by
  have read : readUnsigned 10 sizeLimit text = .ok dim ↔ IsDim text dim :=
    readUnsigned_eq_ok_iff (by decide)
  rw [← read]
  unfold readDim?
  cases readUnsigned 10 sizeLimit text <;> simp [Except.toOption]

theorem mapM_readDim?_eq_some_iff {dims : List (List Char)} {shape : List Nat} :
    dims.mapM readDim? = some shape ↔ List.Forall₂ IsDim dims shape := by
  induction dims generalizing shape with
  | nil => simp [eq_comm]
  | cons dim rest ih =>
    simp only [List.mapM_cons, Option.pure_def, Option.bind_eq_bind, Option.bind_eq_some_iff,
      Option.some.injEq, readDim?_eq_some_iff, ih]
    constructor
    · rintro ⟨size, isDim, sizes, isDims, rfl⟩
      exact .cons isDim isDims
    · rintro (_ | ⟨isDim, isDims⟩)
      exact ⟨_, isDim, _, isDims, rfl⟩

/-- The parts of a text with the separators after all but the last of them are the text. -/
theorem exists_splitAt (separator : Char) (text : List Char) :
    ∃ parts last, splitAt separator text = parts ++ [last] ∧
      text = parts.flatMap (· ++ [separator]) ++ last := by
  induction text with
  | nil => exact ⟨[], [], rfl, rfl⟩
  | cons c rest ih =>
    obtain ⟨parts, last, split, shape⟩ := ih
    by_cases same : c = separator
    · refine ⟨[] :: parts, last, ?_, ?_⟩
      · simp [splitAt, same, split]
      · simp [same, ← shape]
    · cases parts with
      | nil =>
        refine ⟨[], c :: last, ?_, ?_⟩
        · simp [splitAt, same, split]
        · simp [shape]
      | cons part more =>
        refine ⟨(c :: part) :: more, last, ?_, ?_⟩
        · simp [splitAt, same, split]
        · simp [shape]

/-- The ways to write a type, where dimensions have a form of their own. -/
inductive Ty.Spelled (IsSize : List Char → Nat → Prop) : Ty → List Char → Prop
  | int {ty : IntTy} {text : List Char} (elem : ty.Spelled text) : Ty.Spelled IsSize (.int ty) text
  | tensor {shape : List Nat} {dims : List (List Char)} {ty : IntTy} {text : List Char}
      (sizes : List.Forall₂ IsSize dims shape) (elem : ty.Spelled text) :
      Ty.Spelled IsSize (.tensor shape ty)
        ("tensor<".toList ++ (dims.flatMap (· ++ ['x']) ++ text) ++ ['>'])
  | memref {ty : IntTy} {text : List Char} (elem : ty.Spelled text) :
      Ty.Spelled IsSize (.memref ty) ("memref<".toList ++ text ++ ['>'])

theorem eq_of_enclosed? {opening : String} {text inner : List Char}
    (read : enclosed? opening text = some inner) : text = opening.toList ++ inner ++ ['>'] := by
  obtain ⟨after, front, back⟩ := Option.bind_eq_some_iff.mp read
  rw [← List.isPrefixOf?_eq_some_iff_append_eq.mp front,
    ← List.isSuffixOf?_eq_some_iff_append_eq.mp back, List.append_assoc]

theorem Ty.tensorOfChars?_eq_some_iff {inner : List Char} {ty : Ty} :
    Ty.tensorOfChars? inner = some ty ↔ ∃ shape dims elem text, ty = .tensor shape elem ∧
      inner = dims.flatMap (· ++ ['x']) ++ text ∧ List.Forall₂ IsDim dims shape ∧
      elem.Spelled text := by
  constructor
  · intro read
    obtain ⟨parts, last, split, shape⟩ := exists_splitAt 'x' inner
    simp only [Ty.tensorOfChars?, split, List.getLast?_concat, List.dropLast_concat, Option.pure_def,
      Option.bind_eq_bind, Option.bind_some, Option.bind_eq_some_iff, Option.some.injEq] at read
    obtain ⟨elem, readElem, sizes, readSizes, rfl⟩ := read
    exact ⟨sizes, parts, elem, last, rfl, shape, mapM_readDim?_eq_some_iff.mp readSizes,
      IntTy.ofChars?_eq_some_iff.mp readElem⟩
  · rintro ⟨shape, dims, elem, text, rfl, rfl, sizes, spelled⟩
    have clean : ∀ dim ∈ dims, 'x' ∉ dim := by
      intro dim mem
      obtain ⟨index, inside, rfl⟩ := List.getElem_of_mem mem
      exact (List.forall₂_iff_get.mp sizes).2 index inside
        ((List.forall₂_iff_get.mp sizes).1 ▸ inside) |>.not_mem (by decide) (by decide)
    have split := splitAt_flatMap clean (spelled.not_mem (c := 'x') (by decide) (by decide))
    simp only [Ty.tensorOfChars?, split, List.getLast?_concat, List.dropLast_concat, Option.pure_def,
      Option.bind_eq_bind, Option.bind_some, IntTy.ofChars?_eq_some_iff.mpr spelled,
      mapM_readDim?_eq_some_iff.mpr sizes]

theorem Ty.ofChars?_eq_some_iff {text : List Char} {ty : Ty} :
    Ty.ofChars? text = some ty ↔ ty.Spelled IsDim text := by
  constructor
  · intro read
    unfold Ty.ofChars? at read
    split at read
    · rename_i inner isTensor
      obtain ⟨shape, dims, elem, text, rfl, rfl, sizes, spelled⟩ :=
        Ty.tensorOfChars?_eq_some_iff.mp read
      rw [eq_of_enclosed? isTensor]
      exact .tensor sizes spelled
    · split at read
      · rename_i inner isMemref
        obtain ⟨elem, readElem, rfl⟩ := Option.map_eq_some_iff.mp read
        rw [eq_of_enclosed? isMemref]
        exact .memref (IntTy.ofChars?_eq_some_iff.mp readElem)
      · obtain ⟨elem, readElem, rfl⟩ := Option.map_eq_some_iff.mp read
        exact .int (IntTy.ofChars?_eq_some_iff.mp readElem)
  · intro spelled
    unfold Ty.ofChars?
    cases spelled with
    | int elem =>
      simp only [elem.enclosed?_eq_none (Or.inl rfl), elem.enclosed?_eq_none (Or.inr rfl),
        IntTy.ofChars?_eq_some_iff.mpr elem, Option.map_some]
    | tensor sizes elem =>
      rw [enclosed?_append]
      exact Ty.tensorOfChars?_eq_some_iff.mpr ⟨_, _, _, _, rfl, rfl, sizes, elem⟩
    | @memref ty inner elem =>
      have other : enclosed? "tensor<" ("memref<".toList ++ inner ++ ['>']) = none :=
        enclosed?_cons rfl (by decide) _
      rw [other, enclosed?_append]
      simp only [IntTy.ofChars?_eq_some_iff.mpr elem, Option.map_some]

/-- Where all dimensions are in digits alone there is no plus sign. -/
theorem Ty.Spelled.plus_not_mem {ty : Ty} {text : List Char} (spelled : ty.Spelled IsPlainDim text) :
    '+' ∉ text := by
  cases spelled with
  | int elem => exact elem.not_mem (by decide) (by decide)
  | @tensor shape dims ty text sizes elem =>
    have clean : '+' ∉ dims.flatMap (· ++ ['x']) := by
      induction sizes with
      | nil => simp
      | cons plain _ ih => simp [plain.1.not_mem (c := '+') (by decide), ih]
    have elemClean : '+' ∉ text := elem.not_mem (by decide) (by decide)
    simp [clean, elemClean]
  | @memref ty text elem =>
    have elemClean : '+' ∉ text := elem.not_mem (by decide) (by decide)
    simp [elemClean]

theorem Ty.Spelled.mono {IsSize IsOther : List Char → Nat → Prop} {ty : Ty} {text : List Char}
    (spelled : ty.Spelled IsSize text)
    (imp : ∀ part dim, part ⊆ text → IsSize part dim → IsOther part dim) :
    ty.Spelled IsOther text := by
  cases spelled with
  | int elem => exact .int elem
  | @tensor shape dims ty text sizes elem =>
    refine .tensor ?_ elem
    have inside : ∀ dim ∈ dims,
        dim ⊆ "tensor<".toList ++ (dims.flatMap (· ++ ['x']) ++ text) ++ ['>'] := by
      intro dim mem c inDim
      have inDims : c ∈ dims.flatMap (· ++ ['x']) :=
        List.mem_flatMap.mpr ⟨dim, mem, List.mem_append_left _ inDim⟩
      simp [inDims]
    generalize "tensor<".toList ++ (dims.flatMap (· ++ ['x']) ++ text) ++ ['>'] = whole at imp inside
    induction sizes with
    | nil => exact .nil
    | cons first _ ih =>
      exact .cons (imp _ _ (inside _ (by simp)) first)
        (ih fun dim mem => inside dim (by simp [mem]))
  | memref elem => exact .memref elem

/-- A text is read as a type exactly if it is a way to write it, where dimensions may carry a plus sign.
Of the texts that are read, those without a plus sign are the ones in which dimensions are digits
alone. -/
theorem Ty.reads_iff_spelled (text : String) (ty : Ty) :
    (Ty.ofText? text = some ty ↔ ty.Spelled IsDim text.toList) ∧
    (ty.Spelled IsPlainDim text.toList ↔ Ty.ofText? text = some ty ∧ '+' ∉ text.toList) := by
  refine ⟨Ty.ofChars?_eq_some_iff, ?_, ?_⟩
  · intro spelled
    exact ⟨Ty.ofChars?_eq_some_iff.mpr (spelled.mono fun _ _ _ plain => plain.isDim),
      spelled.plus_not_mem⟩
  · rintro ⟨read, noSign⟩
    exact (Ty.ofChars?_eq_some_iff.mp read).mono fun part dim inside isDim =>
      isDim.isPlainDim fun mem => noSign (inside mem)

/-- A plus sign in a dimension is read over. -/
theorem Ty.reads_signed_dim :
    Ty.ofText? "tensor<+4xi32>" = some (.tensor [4] ⟨32, .signless⟩) ∧
      ∀ ty : Ty, ¬ ty.Spelled IsPlainDim "tensor<+4xi32>".toList :=
  ⟨by decide +kernel, fun _ spelled => spelled.plus_not_mem (by decide)⟩

theorem Ty.proper_iff {ty : Ty} :
    ty.Proper ↔ (1 ≤ ty.width ∧ ty.width ≤ 128) ∧ ∀ dim ∈ ty.shape?.getD [], dim < 2 ^ 64 := by
  constructor
  · intro proper
    exact ⟨IntTy.isValid_iff.mp proper.elem, proper.dims⟩
  · rintro ⟨width, dims⟩
    exact ⟨IntTy.isValid_iff.mpr width, dims⟩

/-- Exactly the types of valid width and with dimensions that are sizes read back from their text, so that
no two of them have the same text. Whatever is read is one of them. -/
theorem Ty.text_roundTrip :
    (∀ ty : Ty, Ty.ofText? ty.text = some ty ↔
      (1 ≤ ty.width ∧ ty.width ≤ 128) ∧ ∀ dim ∈ ty.shape?.getD [], dim < 2 ^ 64) ∧
    Set.InjOn Ty.text
      {ty | (1 ≤ ty.width ∧ ty.width ≤ 128) ∧ ∀ dim ∈ ty.shape?.getD [], dim < 2 ^ 64} ∧
    ∀ text ty, Ty.ofText? text = some ty →
      (1 ≤ ty.width ∧ ty.width ≤ 128) ∧ Ty.ofText? ty.text = some ty := by
  refine ⟨fun ty => ⟨?_, ?_⟩, ?_, ?_⟩
  · intro read
    exact Ty.proper_iff.mp (Ty.proper_of_ofText? read)
  · intro sized
    exact Ty.ofText?_text (Ty.proper_iff.mpr sized)
  · intro first sizedFirst second sizedSecond same
    have back : some first = some second := by
      rw [← Ty.ofText?_text (Ty.proper_iff.mpr sizedFirst), same,
        Ty.ofText?_text (Ty.proper_iff.mpr sizedSecond)]
    exact Option.some.inj back
  · intro text ty read
    have proper := Ty.proper_of_ofText? read
    exact ⟨(Ty.proper_iff.mp proper).1, Ty.ofText?_text proper⟩

/-- The largest dimension and the largest width read back, and so does a type that was written with
zeros and a plus sign in front of its numbers. -/
theorem Ty.text_roundTrip_extreme :
    Ty.ofText? (Ty.tensor [0, 2 ^ 64 - 1] ⟨128, .signed⟩).text =
        some (.tensor [0, 2 ^ 64 - 1] ⟨128, .signed⟩) ∧
      Ty.ofText? "tensor<+02xui007>" = some (.tensor [2] ⟨7, .unsigned⟩) ∧
      Ty.ofText? (Ty.tensor [2] ⟨7, .unsigned⟩).text = some (.tensor [2] ⟨7, .unsigned⟩) := by
  have read : Ty.ofText? "tensor<+02xui007>" = some (.tensor [2] ⟨7, .unsigned⟩) := by
    decide +kernel
  refine ⟨(Ty.text_roundTrip.1 _).mpr ⟨by decide, ?_⟩, read, (Ty.text_roundTrip.2.2 _ _ read).2⟩
  intro dim mem
  have cases : dim = 0 ∨ dim = 2 ^ 64 - 1 := by simpa [Ty.shape?] using mem
  omega

end RngLowering
