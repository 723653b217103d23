import Mathlib.Data.List.Basic
import RngLowering.Proofs.Decimal
import RngLowering.Ty.Reader

set_option autoImplicit false

namespace RngLowering

/-- The types that can be written down: a word holds their integers, and their dimensions are
sizes. -/
structure Ty.Proper (ty : Ty) : Prop where
  elem : ty.elem.isValid = true
  dims : ∀ dim ∈ ty.shape?.getD [], dim < sizeLimit

theorem IntTy.isValid_iff {ty : IntTy} :
    ty.isValid = true ↔ 1 ≤ ty.bits ∧ ty.bits ≤ maxBits := by
  simp [IntTy.isValid]

theorem IntTy.bits_le {ty : IntTy} (valid : ty.isValid = true) : ty.bits ≤ maxBits :=
  (IntTy.isValid_iff.mp valid).2

def Signedness.letters : Signedness → List Char
  | .signless => ['i']
  | .signed => ['s', 'i']
  | .unsigned => ['u', 'i']

theorem IntTy.toList_text (ty : IntTy) :
    ty.text.toList = ty.sign.letters ++ Nat.toDigits 10 ty.bits := by
  unfold IntTy.text
  cases sign : ty.sign <;> simp [Signedness.letters]

theorem Signedness.read?_letters (sign : Signedness) {digits : List Char}
    (nonempty : digits ≠ []) (all : ∀ c ∈ digits, c.isDigit = true) :
    Signedness.read? (sign.letters ++ digits) = some (sign, digits) := by
  cases sign with
  | signless =>
    cases digits with
    | nil => exact absurd rfl nonempty
    | cons c rest => simp [Signedness.letters, Signedness.read?]
  | signed => simp [Signedness.letters, Signedness.read?]
  | unsigned => simp [Signedness.letters, Signedness.read?]

theorem IntTy.ofChars?_text {ty : IntTy} (valid : ty.isValid = true) :
    IntTy.ofChars? ty.text.toList = some ty := by
  have fits : ty.bits < maxBits + 1 := Nat.lt_succ_of_le (IntTy.bits_le valid)
  have digits : ∀ c ∈ Nat.toDigits 10 ty.bits, c.isDigit = true :=
    fun c => Numeral.isDigit_of_mem_toDigits
  rw [IntTy.toList_text]
  unfold IntTy.ofChars?
  rw [Signedness.read?_letters ty.sign Nat.toDigits_ne_nil digits]
  simp only [Option.bind_eq_bind, Option.bind_some, guard, List.all_eq_true.mpr digits, valid,
    Numeral.readUnsigned_toDigits fits, Except.toOption, ↓reduceIte, Option.pure_def]

theorem IntTy.isValid_of_ofChars? {text : List Char} {ty : IntTy}
    (read : IntTy.ofChars? text = some ty) : ty.isValid = true := by
  simp only [IntTy.ofChars?, guard, Option.bind_eq_bind, Option.bind_eq_some_iff] at read
  obtain ⟨⟨sign, digits⟩, -, _, -, bits, -, _, checked, made⟩ := read
  split at checked
  · rename_i valid
    cases made
    exact valid
  · cases checked

theorem splitAt_of_not_mem {separator : Char} {part : List Char} (clean : separator ∉ part) :
    splitAt separator part = [part] := by
  induction part with
  | nil => rfl
  | cons c rest ih =>
    simp only [List.mem_cons, not_or] at clean
    simp [splitAt, Ne.symm clean.1, ih clean.2]

theorem splitAt_append {separator : Char} {part rest : List Char} (clean : separator ∉ part) :
    splitAt separator (part ++ separator :: rest) = part :: splitAt separator rest := by
  induction part with
  | nil => simp [splitAt]
  | cons c more ih =>
    simp only [List.mem_cons, not_or] at clean
    simp [splitAt, Ne.symm clean.1, ih clean.2]

theorem splitAt_flatMap {separator : Char} {parts : List (List Char)} {last : List Char}
    (clean : ∀ part ∈ parts, separator ∉ part) (cleanLast : separator ∉ last) :
    splitAt separator (parts.flatMap (· ++ [separator]) ++ last) = parts ++ [last] := by
  induction parts with
  | nil => simp [splitAt_of_not_mem cleanLast]
  | cons part rest ih =>
    simp only [List.flatMap_cons, List.append_assoc, List.cons_append, List.nil_append]
    rw [splitAt_append (clean part (by simp)), ih fun other mem => clean other (by simp [mem])]

theorem not_mem_toDigits {c : Char} (letter : c.isDigit = false) (n : Nat) :
    c ∉ Nat.toDigits 10 n := by
  intro mem
  rw [Numeral.isDigit_of_mem_toDigits mem] at letter
  cases letter

theorem IntTy.not_mem_text {c : Char} (letter : c.isDigit = false) (other : c ∉ ['s', 'u', 'i'])
    (ty : IntTy) : c ∉ ty.text.toList := by
  rw [IntTy.toList_text, List.mem_append, not_or]
  refine ⟨?_, not_mem_toDigits letter ty.bits⟩
  cases ty.sign <;> simp_all [Signedness.letters]

theorem enclosed?_append (opening : String) (inner : List Char) :
    enclosed? opening (opening.toList ++ inner ++ ['>']) = some inner := by
  have front : opening.toList.isPrefixOf? (opening.toList ++ (inner ++ ['>'])) =
      some (inner ++ ['>']) := List.isPrefixOf?_eq_some_iff_append_eq.mpr rfl
  have back : ['>'].isSuffixOf? (inner ++ ['>']) = some inner :=
    List.isSuffixOf?_eq_some_iff_append_eq.mpr rfl
  rw [List.append_assoc, enclosed?, front, Option.bind_some, back]

/-- A text that begins with another letter is not enclosed. -/
theorem enclosed?_cons {opening : String} {first c : Char} {rest : List Char}
    (starts : opening.toList = first :: rest) (other : first ≠ c) (text : List Char) :
    enclosed? opening (c :: text) = none := by
  rw [enclosed?, starts, List.isPrefixOf?, beq_false_of_ne other]
  rfl

/-- The text of an integer type begins like neither of the other sorts. -/
theorem enclosed?_intText {opening : String} (ty : IntTy)
    (start : opening = "tensor<" ∨ opening = "memref<") :
    enclosed? opening ty.text.toList = none := by
  rw [IntTy.toList_text]
  rcases start with rfl | rfl
  · cases ty.sign <;> exact enclosed?_cons rfl (by decide) _
  · cases ty.sign <;> exact enclosed?_cons rfl (by decide) _

def dimChars (shape : List Nat) : List Char :=
  (shape.map (Nat.toDigits 10)).flatMap (· ++ ['x'])

theorem toList_join_dims (shape : List Nat) :
    (String.join (shape.map fun dim => toString dim ++ "x")).toList = dimChars shape := by
  simp [dimChars, String.toList_join, List.flatMap_def, Function.comp_def]

theorem Ty.toList_text_tensor (shape : List Nat) (elem : IntTy) :
    (Ty.tensor shape elem).text.toList =
      "tensor<".toList ++ (dimChars shape ++ elem.text.toList) ++ ['>'] := by
  simp only [Ty.text, String.toList_append, toList_join_dims]
  simp

theorem Ty.toList_text_memref (elem : IntTy) :
    (Ty.memref elem).text.toList = "memref<".toList ++ elem.text.toList ++ ['>'] := by
  simp [Ty.text]

theorem readDim?_toDigits {dim : Nat} (fits : dim < sizeLimit) :
    readDim? (Nat.toDigits 10 dim) = some dim := by
  simp [readDim?, Numeral.readUnsigned_toDigits fits, Except.toOption]

theorem mapM_readDim? {shape : List Nat} (fits : ∀ dim ∈ shape, dim < sizeLimit) :
    (shape.map (Nat.toDigits 10)).mapM readDim? = some shape := by
  induction shape with
  | nil => rfl
  | cons dim rest ih =>
    simp [readDim?_toDigits (fits dim (by simp)), ih fun other mem => fits other (by simp [mem])]

theorem Ty.tensorOfChars?_text {shape : List Nat} {elem : IntTy}
    (valid : elem.isValid = true) (fits : ∀ dim ∈ shape, dim < sizeLimit) :
    Ty.tensorOfChars? (dimChars shape ++ elem.text.toList) = some (.tensor shape elem) := by
  have parts : splitAt 'x' (dimChars shape ++ elem.text.toList) =
      shape.map (Nat.toDigits 10) ++ [elem.text.toList] := by
    apply splitAt_flatMap
    · intro part mem
      obtain ⟨dim, -, rfl⟩ := List.mem_map.mp mem
      exact not_mem_toDigits (by decide) dim
    · exact IntTy.not_mem_text (by decide) (by decide) elem
  unfold Ty.tensorOfChars?
  simp [parts, IntTy.ofChars?_text valid, mapM_readDim? fits]

/-- A proper type reads back from its text. -/
theorem Ty.ofText?_text {ty : Ty} (proper : ty.Proper) : Ty.ofText? ty.text = some ty := by
  have valid := proper.elem
  unfold Ty.ofText? Ty.ofChars?
  cases ty with
  | int ty =>
    change ty.isValid = true at valid
    simp only [Ty.text, enclosed?_intText ty (Or.inl rfl), enclosed?_intText ty (Or.inr rfl),
      IntTy.ofChars?_text valid, Option.map_some]
  | tensor shape elem =>
    rw [Ty.toList_text_tensor, enclosed?_append]
    exact Ty.tensorOfChars?_text valid proper.dims
  | memref elem =>
    change elem.isValid = true at valid
    have other : enclosed? "tensor<" ("memref<".toList ++ elem.text.toList ++ ['>']) = none :=
      enclosed?_cons rfl (by decide) _
    rw [Ty.toList_text_memref, other, enclosed?_append]
    simp [IntTy.ofChars?_text valid]

theorem readDim?_lt {text : List Char} {dim : Nat} (read : readDim? text = some dim) :
    dim < sizeLimit := by
  unfold readDim? at read
  cases outcome : Numeral.readUnsigned 10 sizeLimit text with
  | error fault => simp [outcome, Except.toOption] at read
  | ok n =>
    simp only [outcome, Except.toOption, Option.some.injEq] at read
    rw [← read]
    exact Numeral.readUnsigned_lt (by decide) outcome

theorem mapM_readDim?_lt {parts : List (List Char)} {shape : List Nat}
    (read : parts.mapM readDim? = some shape) : ∀ dim ∈ shape, dim < sizeLimit := by
  induction parts generalizing shape with
  | nil => simp_all
  | cons part rest ih =>
    simp only [List.mapM_cons, Option.pure_def, Option.bind_eq_bind, Option.bind_eq_some_iff,
      Option.some.injEq] at read
    obtain ⟨dim, readHead, dims, readRest, rfl⟩ := read
    intro other mem
    rcases List.mem_cons.mp mem with rfl | later
    · exact readDim?_lt readHead
    · exact ih readRest other later

/-- Every type that is read is proper. -/
theorem Ty.proper_of_ofText? {text : String} {ty : Ty} (read : Ty.ofText? text = some ty) :
    ty.Proper := by
  unfold Ty.ofText? Ty.ofChars? at read
  split at read
  · simp only [Ty.tensorOfChars?, Option.pure_def, Option.bind_eq_bind,
      Option.bind_eq_some_iff, Option.some.injEq] at read
    obtain ⟨elem, ⟨last, -, readElem⟩, shape, readShape, rfl⟩ := read
    exact ⟨IntTy.isValid_of_ofChars? readElem, mapM_readDim?_lt readShape⟩
  · split at read
    · obtain ⟨elem, readElem, rfl⟩ := Option.map_eq_some_iff.mp read
      exact ⟨IntTy.isValid_of_ofChars? readElem, by simp [Ty.shape?]⟩
    · obtain ⟨elem, readElem, rfl⟩ := Option.map_eq_some_iff.mp read
      exact ⟨IntTy.isValid_of_ofChars? readElem, by simp [Ty.shape?]⟩

end RngLowering
