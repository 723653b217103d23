import RngLowering.Outcome
import RngLowering.Program.OpForm
import RngLowering.Proofs.Layout
import RngLowering.Proofs.Outline
import RngLowering.Proofs.TypeText

/-!
The written form of an outline, and which outlines can be read back from it.

Values are written by their numbers. A statement is legible if its kind is the one that its written
form stands for, and all names, attributes and types of it can be written.
-/

set_option autoImplicit false

namespace RngLowering

open Lexer Printer

theorem KeptApart.of_breaks {pieces : List Piece} (breaks : ∀ piece ∈ pieces, piece.breaks = true) :
    KeptApart false pieces := by
  induction pieces with
  | nil => trivial
  | cons piece rest ih =>
    refine ⟨Or.inr (breaks piece (by simp)), KeptApart.weaken (ih fun other mem => ?_) _⟩
    exact breaks other (by simp [mem])

/-- Anything may stand first on a line, and after a mark. -/
theorem KeptApart.cons_of_breaks {piece : Piece} {rest : List Piece}
    (breaks : ∀ other ∈ rest, other.breaks = true) : KeptApart true (piece :: rest) :=
  ⟨Or.inl rfl, (KeptApart.of_breaks breaks).weaken _⟩

theorem breaks_of_mem_commaList_spaced {tokens : List Token} {piece : Piece}
    (mem : piece ∈ commaList .spaced tokens) : piece.breaks = true := by
  cases tokens with
  | nil => cases mem
  | cons head rest =>
    simp only [commaList, List.mem_cons, List.mem_flatMap, List.not_mem_nil, or_false] at mem
    rcases mem with rfl | ⟨token, -, rfl | rfl⟩ <;> rfl

theorem keptApart_commaList_tight (tokens : List Token) :
    KeptApart true (commaList .tight tokens) := by
  cases tokens with
  | nil => trivial
  | cons head rest =>
    refine KeptApart.cons_of_breaks fun piece mem => ?_
    simp only [List.mem_flatMap, List.mem_cons, List.not_mem_nil, or_false] at mem
    rcases mem with ⟨token, -, rfl | rfl⟩ <;> rfl

theorem breaks_of_mem_typePieces {tokens : List Token} {piece : Piece}
    (mem : piece ∈ typePieces tokens) : piece.breaks = true := by
  cases tokens with
  | nil => cases mem
  | cons head rest =>
    rcases List.mem_cons.mp mem with rfl | inside
    · rfl
    · exact breaks_of_mem_commaList_spaced inside

theorem breaks_of_mem_symbolPieces {kind : OpKind} {piece : Piece}
    (mem : piece ∈ symbolPieces kind) : piece.breaks = true := by
  simp only [symbolPieces, Option.mem_toList, Option.map_eq_some_iff] at mem
  obtain ⟨sym, -, rfl⟩ := mem
  rfl

theorem keptApart_attrPieces (attrs : List (String × Attr)) : KeptApart false (attrPieces attrs) := by
  cases attrs with
  | nil => trivial
  | cons head rest =>
    obtain ⟨key, more, tokens⟩ : ∃ key more, attrTokens head = .ident key :: more := by
      obtain ⟨key, value⟩ := head
      cases value with
      | int value => exact ⟨key, _, rfl⟩
      | str text => exact ⟨key, _, rfl⟩
      | flag => exact ⟨key, _, rfl⟩
    simp only [attrPieces, tokens, spacedOut, List.cons_append]
    refine ⟨Or.inr rfl, KeptApart.cons_of_breaks fun piece mem => ?_⟩
    simp only [List.mem_append, List.mem_map, List.mem_flatMap, List.mem_cons, List.not_mem_nil,
      or_false] at mem
    rcases mem with (⟨token, -, rfl⟩ | ⟨attr, -, rfl | inside⟩) | rfl
    · rfl
    · rfl
    · cases written : attrTokens attr with
      | nil => simp [written] at inside
      | cons first later =>
        simp only [written, List.mem_cons, List.mem_map] at inside
        rcases inside with rfl | ⟨token, -, rfl⟩ <;> rfl
    · rfl

def numberToken (v : ValueId) : Token := .value (toString v)

def Ty.token (ty : Ty) : Token := .ident ty.text

namespace Stmt

/-- The types that are written: that of a cell for its definition, else those of the results. -/
def writtenTypes (s : Stmt) : List Ty :=
  match s.kind with
  | .global cell => [cell.ty]
  | _ => s.types

def resultPieces (s : Stmt) : List Piece :=
  if s.defs.isEmpty then [] else commaList .tight (s.defs.map numberToken) ++ [.spaced .equals]

def namePiece (s : Stmt) : Piece :=
  if s.defs.isEmpty then .tight (.ident s.kind.name) else .spaced (.ident s.kind.name)

def pieces (s : Stmt) : List Piece :=
  s.resultPieces ++ s.namePiece :: symbolPieces s.kind ++
    commaList .spaced (s.operands.map numberToken) ++ attrPieces s.kind.attrs ++
    typePieces (s.writtenTypes.map Ty.token)

end Stmt

def paramPieces : List (ValueId × Ty) → List Piece
  | [] => []
  | head :: rest => param .tight head ++ rest.flatMap fun next => .tight .comma :: param .spaced next
where
  param (first : Token → Piece) (item : ValueId × Ty) : List Piece :=
    [first (numberToken item.1), .tight .colon, .spaced item.2.token]

def headPieces (sym : String) (params : List (ValueId × Ty)) : List Piece :=
  [.tight (.ident "func.func"), .spaced (.symbol sym), .tight .lparen] ++ paramPieces params ++
    [.tight .rparen, .spaced .lbrace]

def closingLine (depth : Nat) : Line := ⟨depth, [.tight .rbrace]⟩

def Item.lines : Item → List Line
  | .op s => [⟨1, s.pieces⟩]
  | .func sym params body =>
    ⟨1, headPieces sym params⟩ :: (body.map fun s => ⟨2, s.pieces⟩) ++ [closingLine 1]

def Outline.lines (name : String) (o : Outline) : List Line :=
  ⟨0, [.tight (.ident "module"), .spaced (.symbol name), .spaced .lbrace]⟩ ::
    o.flatMap Item.lines ++ [closingLine 0]

structure AttrLegible (attr : String × Attr) : Prop where
  key : IsWord attr.1.toList
  int : ∀ value, attr.2 = .int value → value < wordLimit
  str : ∀ text, attr.2 = .str text → ∀ c ∈ text.toList, c ≠ '"' ∧ c ≠ '\n'

structure Stmt.Legible (s : Stmt) : Prop where
  kind : OpForm.kindOf s.kind.name s.kind.symbol? s.kind.attrs s.writtenTypes = .ok s.kind
  results : ∀ cell, s.kind = .global cell → s.results = []
  name : IsWord s.kind.name.toList
  dotted : '.' ∈ s.kind.name.toList
  /-- Without results it would be read as a function. -/
  apart : s.kind.name = "func.func" → s.results ≠ []
  symbol : ∀ sym, s.kind.symbol? = some sym → IsName sym.toList
  attrs : ∀ attr ∈ s.kind.attrs, AttrLegible attr
  types : ∀ ty ∈ s.writtenTypes, ty.Proper

def Item.Legible : Item → Prop
  | .op s => s.Legible
  | .func sym params body =>
    IsName sym.toList ∧ (∀ param ∈ params, param.2.Proper) ∧ ∀ s ∈ body, s.Legible

def Outline.Legible (o : Outline) : Prop := ∀ item ∈ o, item.Legible

theorem initOf_eq_truncate {attrs : List (String × Attr)} {width init : Nat}
    (read : OpForm.initOf attrs width = .ok init) : ∃ value, init = truncate width value := by
  unfold OpForm.initOf at read
  split at read
  · cases read
    exact ⟨0, by simp [truncate]⟩
  · cases read
    exact ⟨_, rfl⟩
  · cases read

theorem globalKind_cases {sym : Option String} {attrs : List (String × Attr)} {types : List Ty}
    {kind : OpKind} (read : OpForm.globalKind sym attrs types = .ok kind) :
    ∃ s elem visibility value frozen, sym = some s ∧ types = [.memref elem] ∧
      kind = .global ⟨s, .memref elem, truncate elem.bits value, visibility, frozen⟩ := by
  unfold OpForm.globalKind at read
  split at read
  · cases read
  · rename_i s
    split at read
    · rename_i elem
      obtain ⟨visibility, -, read⟩ := bind_eq_ok.1 read
      obtain ⟨init, readInit, read⟩ := bind_eq_ok.1 read
      obtain ⟨value, rfl⟩ := initOf_eq_truncate readInit
      cases read
      exact ⟨s, elem, visibility, value, _, rfl, rfl, rfl⟩
    · cases read

/-- How a kind comes from its written form. -/
theorem kindOf_cases {name : String} {sym : Option String} {attrs : List (String × Attr)}
    {types : List Ty} {kind : OpKind} (read : OpForm.kindOf name sym attrs types = .ok kind) :
    (∃ value, name = "arith.constant" ∧
      kind = .constant (truncate ((types.head?.map Ty.width).getD maxBits) value)) ∨
    (∃ s elem visibility value frozen, name = "memref.global" ∧ sym = some s ∧
      types = [.memref elem] ∧
      kind = .global ⟨s, .memref elem, truncate elem.bits value, visibility, frozen⟩) ∨
    (∃ s, name = "memref.get_global" ∧ sym = some s ∧ kind = .getGlobal s) ∨
    OpKind.plain? name = some kind ∨
    kind = .foreign name sym attrs := by
  unfold OpForm.kindOf at read
  split at read
  · rename_i isConstant
    unfold OpForm.constantKind at read
    split at read
    · cases read
      exact Or.inl ⟨_, isConstant, rfl⟩
    · cases read
  · split at read
    · rename_i isGlobal
      obtain ⟨s, elem, visibility, value, frozen, symbol, cellTy, same⟩ := globalKind_cases read
      exact Or.inr (Or.inl ⟨s, elem, visibility, value, frozen, isGlobal, symbol, cellTy, same⟩)
    · split at read
      · rename_i isGetGlobal
        unfold OpForm.getGlobalKind at read
        split at read
        · split at read
          · cases read
            exact Or.inr (Or.inr (Or.inl ⟨_, isGetGlobal, rfl, rfl⟩))
          · cases read
        · cases read
      · split at read
        · rename_i plain found
          split at read
          · cases read
            exact Or.inr (Or.inr (Or.inr (Or.inl found)))
          · cases read
        · cases read
          exact Or.inr (Or.inr (Or.inr (Or.inr rfl)))

/-- The kinds known by their name alone carry nothing else. -/
theorem plain?_cases {name : String} {kind : OpKind} (found : OpKind.plain? name = some kind) :
    kind.name = name ∧ kind.symbol? = none ∧ kind.attrs = [] ∧ kind.isFunc = false ∧
      (∀ cell, kind ≠ .global cell) ∧
      ∀ types, OpForm.kindOf kind.name none [] types = .ok kind := by
  have named : kind.name = name := by simpa using List.find?_some found
  have listed := List.mem_of_find?_eq_some found
  refine ⟨named, ?_⟩
  simp only [List.mem_cons, List.not_mem_nil, or_false] at listed
  rcases listed with rfl | rfl | rfl | rfl | rfl | rfl | rfl | rfl | rfl | rfl | rfl <;>
    exact ⟨rfl, rfl, rfl, by simp, fun types => by simp [OpForm.kindOf, OpKind.name, OpKind.plain?]⟩

theorem Visibility.ofText?_text (visibility : Visibility) :
    Visibility.ofText? visibility.text = some visibility := by
  cases visibility <;> rfl

theorem kindOf_global {sym : String} {elem : IntTy} {init : Nat} {visibility : Visibility}
    {frozen : Bool} (fits : init = truncate elem.bits init) :
    OpForm.kindOf "memref.global" (some sym)
        (OpKind.global ⟨sym, .memref elem, init, visibility, frozen⟩).attrs [.memref elem] =
      .ok (.global ⟨sym, .memref elem, init, visibility, frozen⟩) := by
  cases frozen <;>
    simp [OpForm.kindOf, OpForm.globalKind, OpForm.visibilityOf, OpForm.initOf, OpForm.attr?,
      OpKind.attrs, List.lookup_cons, Visibility.ofText?_text, ← fits, bind, Except.bind, pure,
      Except.pure]

/-- What a kind is written as stands for that kind. -/
theorem kindOf_self {name : String} {sym : Option String} {attrs : List (String × Attr)}
    {types : List Ty} {kind : OpKind} (read : OpForm.kindOf name sym attrs types = .ok kind) :
    OpForm.kindOf kind.name kind.symbol? kind.attrs types = .ok kind := by
  rcases kindOf_cases read with ⟨value, -, rfl⟩ | ⟨s, elem, visibility, value, frozen, -, -, rfl, rfl⟩ |
    ⟨s, -, -, rfl⟩ | found | rfl
  · simp [OpForm.kindOf, OpForm.constantKind, OpForm.attr?, OpKind.name, OpKind.attrs]
  · exact kindOf_global (by simp)
  · simp [OpForm.kindOf, OpForm.getGlobalKind, OpKind.name, OpKind.symbol?, OpKind.attrs]
  · obtain ⟨-, symbol, noAttrs, -, -, same⟩ := plain?_cases found
    rw [symbol, noAttrs]
    exact same types
  · exact read

theorem name_of_kindOf {name : String} {sym : Option String} {attrs : List (String × Attr)}
    {types : List Ty} {kind : OpKind} (read : OpForm.kindOf name sym attrs types = .ok kind) :
    kind.name = name := by
  rcases kindOf_cases read with ⟨value, rfl, rfl⟩ | ⟨s, elem, visibility, value, frozen, rfl, -, -, rfl⟩ |
    ⟨s, rfl, -, rfl⟩ | found | rfl
  · rfl
  · rfl
  · rfl
  · exact (plain?_cases found).1
  · rfl

/-- A symbol of a kind is the one that was written. -/
theorem symbol_of_kindOf {name : String} {sym : Option String} {attrs : List (String × Attr)}
    {types : List Ty} {kind : OpKind} (read : OpForm.kindOf name sym attrs types = .ok kind)
    {s : String} (symbol : kind.symbol? = some s) : sym = some s := by
  rcases kindOf_cases read with ⟨value, -, rfl⟩ | ⟨t, elem, visibility, value, frozen, -, rfl, -, rfl⟩ |
    ⟨t, -, rfl, rfl⟩ | found | rfl
  · cases symbol
  · exact symbol
  · exact symbol
  · rw [(plain?_cases found).2.1] at symbol
    cases symbol
  · exact symbol

/-- The type that is written for a cell is the type of the cell. -/
theorem types_of_kindOf_global {name : String} {sym : Option String}
    {attrs : List (String × Attr)} {types : List Ty} {cell : GlobalCell}
    (read : OpForm.kindOf name sym attrs types = .ok (.global cell)) : types = [cell.ty] := by
  rcases kindOf_cases read with ⟨value, -, same⟩ | ⟨s, elem, visibility, value, frozen, -, -, written, same⟩ |
    ⟨s, -, -, same⟩ | found | same
  · cases same
  · cases same
    exact written
  · cases same
  · exact absurd rfl ((plain?_cases found).2.2.2.2.1 cell)
  · cases same

/-- No written form stands for a function. -/
theorem isFunc_of_kindOf {name : String} {sym : Option String} {attrs : List (String × Attr)}
    {types : List Ty} {kind : OpKind} (read : OpForm.kindOf name sym attrs types = .ok kind) :
    kind.isFunc = false := by
  rcases kindOf_cases read with ⟨value, -, rfl⟩ | ⟨t, elem, visibility, value, frozen, -, -, -, rfl⟩ |
    ⟨t, -, -, rfl⟩ | found | rfl
  · rfl
  · rfl
  · rfl
  · exact (plain?_cases found).2.2.2.1
  · rfl

theorem isWord_of_chars {word : List Char} (start : word.head?.any isNameStart = true)
    (chars : word.all isNameChar = true) : IsWord word := by
  cases word with
  | nil => cases start
  | cons c name =>
    simp only [List.all_cons, Bool.and_eq_true, List.all_eq_true] at chars
    exact ⟨c, name, [], by simp, start, chars.2, Or.inl rfl⟩

theorem truncate_lt_wordLimit (bits value : Nat) : truncate bits value < wordLimit :=
  Nat.lt_of_lt_of_le (truncate_lt bits value) (bitLimit_le_wordLimit bits)

theorem attrLegible_int {key : String} (word : IsWord key.toList) {value : Nat}
    (fits : value < wordLimit) : AttrLegible (key, .int value) where
  key := word
  int _ same := by
    cases same
    exact fits
  str _ same := by cases same

theorem attrLegible_str {key text : String} (word : IsWord key.toList)
    (clean : ∀ c ∈ text.toList, c ≠ '"' ∧ c ≠ '\n') : AttrLegible (key, .str text) where
  key := word
  int _ same := by cases same
  str _ same := by
    cases same
    exact clean

theorem attrLegible_flag {key : String} (word : IsWord key.toList) : AttrLegible (key, .flag) where
  key := word
  int _ same := by cases same
  str _ same := by cases same

theorem attrLegible_global {sym : String} {elem : IntTy} {init : Nat} {visibility : Visibility}
    {frozen : Bool} (fits : init < wordLimit) {attr : String × Attr}
    (mem : attr ∈ (OpKind.global ⟨sym, .memref elem, init, visibility, frozen⟩).attrs) :
    AttrLegible attr := by
  simp only [OpKind.attrs, List.cons_append, List.nil_append, List.mem_cons] at mem
  rcases mem with rfl | rfl | mem
  · have clean : visibility.text.toList.all (fun c => c ≠ '"' ∧ c ≠ '\n') = true := by
      cases visibility <;> decide
    exact attrLegible_str (isWord_of_chars (by decide) (by decide)) fun c mem =>
      of_decide_eq_true (List.all_eq_true.mp clean c mem)
  · exact attrLegible_int (isWord_of_chars (by decide) (by decide)) fits
  · cases frozen with
    | false => cases mem
    | true =>
      rw [List.mem_singleton.mp mem]
      exact attrLegible_flag (isWord_of_chars (by decide) (by decide))

/-- A kind keeps attributes that were written, or has its own. -/
theorem attrLegible_of_kindOf {name : String} {sym : Option String} {attrs : List (String × Attr)}
    {types : List Ty} {kind : OpKind} (read : OpForm.kindOf name sym attrs types = .ok kind)
    (legible : ∀ attr ∈ attrs, AttrLegible attr) : ∀ attr ∈ kind.attrs, AttrLegible attr := by
  rcases kindOf_cases read with ⟨value, -, rfl⟩ | ⟨t, elem, visibility, value, frozen, -, -, -, rfl⟩ |
    ⟨t, -, -, rfl⟩ | found | rfl
  · intro attr mem
    rw [List.mem_singleton.mp mem]
    exact attrLegible_int (isWord_of_chars (by decide) (by decide)) (truncate_lt_wordLimit _ _)
  · intro attr mem
    exact attrLegible_global (truncate_lt_wordLimit _ _) mem
  · intro attr mem
    cases mem
  · rw [(plain?_cases found).2.2.1]
    intro attr mem
    cases mem
  · exact legible

theorem group_closed {inner : List Char} (clean : ∀ c ∈ inner, c ≠ '<' ∧ c ≠ '>' ∧ c ≠ '\n') :
    group 1 (inner ++ ['>']) = (inner ++ ['>'], true) := by
  induction inner with
  | nil => rfl
  | cons c rest ih =>
    obtain ⟨notOpen, notClose, notEnd⟩ := clean c (by simp)
    have closed := ih fun d mem => clean d (by simp [mem])
    simp [group, notOpen, notClose, notEnd, closed]

theorem isWord_bracketed (c : Char) (name inner : List Char) (start : isNameStart c = true)
    (chars : ∀ d ∈ name, isNameChar d = true)
    (clean : ∀ d ∈ inner, d ≠ '<' ∧ d ≠ '>' ∧ d ≠ '\n') :
    IsWord (c :: name ++ '<' :: (inner ++ ['>'])) := by
  refine ⟨c, name, '<' :: (inner ++ ['>']), by simp, start, chars, Or.inr ⟨rfl, ?_⟩⟩
  simp [group, group_closed clean]

theorem IntTy.clean_text (ty : IntTy) : ∀ c ∈ ty.text.toList, c ≠ '<' ∧ c ≠ '>' ∧ c ≠ '\n' := by
  intro c mem
  refine ⟨?_, ?_, ?_⟩ <;> rintro rfl <;>
    exact IntTy.not_mem_text (by decide) (by decide) ty mem

theorem dimChars_clean (shape : List Nat) :
    ∀ c ∈ dimChars shape, c ≠ '<' ∧ c ≠ '>' ∧ c ≠ '\n' := by
  intro c mem
  simp only [dimChars, List.mem_flatMap, List.mem_map, List.mem_append, List.mem_singleton] at mem
  obtain ⟨digits, ⟨dim, -, rfl⟩, digit | rfl⟩ := mem
  · refine ⟨?_, ?_, ?_⟩ <;> rintro rfl <;> exact not_mem_toDigits (by decide) dim digit
  · decide

theorem Ty.isWord_text (ty : Ty) : IsWord ty.text.toList := by
  cases ty with
  | int ty =>
    have digits : ∀ c ∈ Nat.toDigits 10 ty.bits, isNameChar c = true :=
      fun c mem => isNameChar_of_isDigit (Numeral.isDigit_of_mem_toDigits mem)
    change IsWord ty.text.toList
    rw [IntTy.toList_text]
    refine isWord_of_chars ?_ ?_
    · cases ty.sign <;> rfl
    · rw [List.all_append, List.all_eq_true.mpr digits]
      cases ty.sign <;> rfl
  | tensor shape elem =>
    rw [Ty.toList_text_tensor]
    refine isWord_bracketed 't' "ensor".toList (dimChars shape ++ elem.text.toList) (by decide)
      (List.all_eq_true.mp (by decide)) ?_
    intro c mem
    rcases List.mem_append.mp mem with inDims | inElem
    · exact dimChars_clean shape c inDims
    · exact elem.clean_text c inElem
  | memref elem =>
    rw [Ty.toList_text_memref]
    exact isWord_bracketed 'm' "emref".toList elem.text.toList (by decide)
      (List.all_eq_true.mp (by decide)) elem.clean_text

theorem isName_toString (n : Nat) : IsName (toString n).toList where
  nonempty := by simp
  chars := by
    intro c mem
    simp only [Nat.toString_eq_repr, Nat.toList_repr] at mem
    exact isNameChar_of_isDigit (Numeral.isDigit_of_mem_toDigits mem)

theorem proper_of_mem_commaList {first : Token → Piece} (same : ∀ t, (first t).token = t)
    {tokens : List Token} (proper : ∀ t ∈ tokens, t.Proper) {piece : Piece}
    (mem : piece ∈ commaList first tokens) : piece.token.Proper := by
  cases tokens with
  | nil => cases mem
  | cons head rest =>
    simp only [commaList, List.mem_cons, List.mem_flatMap, List.not_mem_nil, or_false] at mem
    rcases mem with rfl | ⟨token, inside, rfl | rfl⟩
    · rw [same]
      exact proper head (by simp)
    · trivial
    · exact proper token (by simp [inside])

theorem proper_of_mem_numbers {values : List ValueId} {t : Token}
    (mem : t ∈ values.map numberToken) : t.Proper := by
  obtain ⟨v, -, rfl⟩ := List.mem_map.mp mem
  exact isName_toString v

theorem proper_of_mem_types {types : List Ty} {t : Token} (mem : t ∈ types.map Ty.token) :
    t.Proper := by
  obtain ⟨ty, -, rfl⟩ := List.mem_map.mp mem
  exact ty.isWord_text

theorem proper_of_mem_attrTokens {attr : String × Attr} (legible : AttrLegible attr) {t : Token}
    (mem : t ∈ attrTokens attr) : t.Proper := by
  obtain ⟨key, value⟩ := attr
  cases value with
  | int value =>
    simp only [attrTokens, List.mem_cons, List.not_mem_nil, or_false] at mem
    rcases mem with rfl | rfl | rfl
    · exact legible.key
    · trivial
    · exact legible.int value rfl
  | str text =>
    simp only [attrTokens, List.mem_cons, List.not_mem_nil, or_false] at mem
    rcases mem with rfl | rfl | rfl
    · exact legible.key
    · trivial
    · exact legible.str text rfl
  | flag =>
    rw [List.mem_singleton.mp mem]
    exact legible.key

theorem proper_of_mem_spacedOut {first : Token → Piece} (same : ∀ t, (first t).token = t)
    {tokens : List Token} (proper : ∀ t ∈ tokens, t.Proper) {piece : Piece}
    (mem : piece ∈ spacedOut first tokens) : piece.token.Proper := by
  cases tokens with
  | nil => cases mem
  | cons head rest =>
    simp only [spacedOut, List.mem_cons, List.mem_map] at mem
    rcases mem with rfl | ⟨token, inside, rfl⟩
    · rw [same]
      exact proper head (by simp)
    · exact proper token (by simp [inside])

theorem proper_of_mem_attrPieces {attrs : List (String × Attr)}
    (legible : ∀ attr ∈ attrs, AttrLegible attr) {piece : Piece}
    (mem : piece ∈ attrPieces attrs) : piece.token.Proper := by
  cases attrs with
  | nil => cases mem
  | cons head rest =>
    simp only [attrPieces, List.cons_append, List.mem_cons, List.mem_append, List.mem_flatMap,
      List.not_mem_nil, or_false] at mem
    rcases mem with rfl | (inHead | ⟨attr, inside, rfl | inAttr⟩) | rfl
    · trivial
    · exact proper_of_mem_spacedOut (fun t => rfl)
        (fun t => proper_of_mem_attrTokens (legible head (by simp))) inHead
    · trivial
    · exact proper_of_mem_spacedOut (fun t => rfl)
        (fun t => proper_of_mem_attrTokens (legible attr (by simp [inside]))) inAttr
    · trivial

theorem Stmt.legible_line {s : Stmt} (legible : s.Legible) (depth : Nat) :
    Line.Legible ⟨depth, s.pieces⟩ where
  apart := by
    have rest : KeptApart false (symbolPieces s.kind ++
        commaList .spaced (s.operands.map numberToken) ++ attrPieces s.kind.attrs ++
        typePieces (s.writtenTypes.map Ty.token)) := by
      refine KeptApart.append (KeptApart.append (KeptApart.append ?_ ?_) ?_) ?_
      · exact KeptApart.of_breaks fun piece => breaks_of_mem_symbolPieces
      · exact KeptApart.of_breaks fun piece => breaks_of_mem_commaList_spaced
      · exact keptApart_attrPieces _
      · exact KeptApart.of_breaks fun piece => breaks_of_mem_typePieces
    simp only [Stmt.pieces, Stmt.resultPieces, Stmt.namePiece, List.append_assoc] at rest ⊢
    split
    · exact ⟨Or.inl rfl, rest⟩
    · refine KeptApart.append ?_ ⟨Or.inr rfl, rest⟩
      exact KeptApart.append (keptApart_commaList_tight _) ⟨Or.inr rfl, trivial⟩
  proper := by
    intro piece mem
    simp only [Stmt.pieces, List.mem_append, List.mem_cons, or_assoc] at mem
    rcases mem with inResults | rfl | inSymbol | inOperands | inAttrs | inTypes
    · unfold Stmt.resultPieces at inResults
      split at inResults
      · cases inResults
      · rcases List.mem_append.mp inResults with inside | equals
        · exact proper_of_mem_commaList (fun t => rfl) (fun t => proper_of_mem_numbers) inside
        · rw [List.mem_singleton.mp equals]
          trivial
    · unfold Stmt.namePiece
      split <;> exact legible.name
    · simp only [symbolPieces, Option.mem_toList, Option.map_eq_some_iff] at inSymbol
      obtain ⟨sym, found, rfl⟩ := inSymbol
      exact legible.symbol sym found
    · exact proper_of_mem_commaList (fun t => rfl) (fun t => proper_of_mem_numbers) inOperands
    · exact proper_of_mem_attrPieces legible.attrs inAttrs
    · unfold typePieces at inTypes
      split at inTypes
      · cases inTypes
      · rcases List.mem_cons.mp inTypes with rfl | inside
        · trivial
        · exact proper_of_mem_commaList (fun t => rfl) (fun t => proper_of_mem_types) inside

theorem legible_closingLine (depth : Nat) : (closingLine depth).Legible where
  apart := ⟨Or.inl rfl, trivial⟩
  proper := by
    intro piece mem
    rw [List.mem_singleton.mp mem]
    trivial

theorem proper_of_mem_param {first : Token → Piece} (same : ∀ t, (first t).token = t)
    {param : ValueId × Ty} {piece : Piece} (mem : piece ∈ paramPieces.param first param) :
    piece.token.Proper := by
  simp only [paramPieces.param, List.mem_cons, List.not_mem_nil, or_false] at mem
  rcases mem with rfl | rfl | rfl
  · rw [same]
    exact isName_toString param.1
  · trivial
  · exact param.2.isWord_text

theorem proper_of_mem_paramPieces {params : List (ValueId × Ty)} {piece : Piece}
    (mem : piece ∈ paramPieces params) : piece.token.Proper := by
  cases params with
  | nil => cases mem
  | cons head rest =>
    simp only [paramPieces, List.mem_append, List.mem_flatMap, List.mem_cons] at mem
    rcases mem with inHead | ⟨param, -, rfl | inParam⟩
    · exact proper_of_mem_param (fun t => rfl) inHead
    · trivial
    · exact proper_of_mem_param (fun t => rfl) inParam

theorem keptApart_paramPieces (params : List (ValueId × Ty)) :
    KeptApart true (paramPieces params) := by
  cases params with
  | nil => trivial
  | cons head rest =>
    simp only [paramPieces, paramPieces.param, List.cons_append, List.nil_append]
    refine KeptApart.cons_of_breaks fun piece mem => ?_
    simp only [List.mem_flatMap, List.mem_cons, List.not_mem_nil, or_false] at mem
    rcases mem with rfl | rfl | ⟨param, -, rfl | rfl | rfl | rfl⟩ <;> rfl

theorem legible_headLine {sym : String} (name : IsName sym.toList) (params : List (ValueId × Ty)) :
    Line.Legible ⟨1, headPieces sym params⟩ where
  apart := by
    refine ⟨Or.inl rfl, Or.inr rfl, Or.inr rfl, ?_⟩
    exact KeptApart.append (keptApart_paramPieces params) ⟨Or.inr rfl, Or.inr rfl, trivial⟩
  proper := by
    intro piece mem
    simp only [headPieces, List.cons_append, List.nil_append, List.mem_append, List.mem_cons,
      List.not_mem_nil, or_false] at mem
    rcases mem with rfl | rfl | rfl | inParams | rfl | rfl
    · exact isWord_of_chars (by decide) (by decide)
    · exact name
    · trivial
    · exact proper_of_mem_paramPieces inParams
    · trivial
    · trivial

theorem Item.legible_lines {item : Item} (legible : item.Legible) :
    ∀ line ∈ item.lines, line.Legible := by
  intro line mem
  cases item with
  | op s =>
    rw [List.mem_singleton.mp mem]
    exact Stmt.legible_line legible 1
  | func sym params body =>
    simp only [Item.lines, List.cons_append, List.mem_cons, List.mem_append, List.mem_map,
      List.not_mem_nil, or_false] at mem
    rcases mem with rfl | ⟨s, inside, rfl⟩ | rfl
    · exact legible_headLine legible.1 params
    · exact Stmt.legible_line (legible.2.2 s inside) 2
    · exact legible_closingLine 1

theorem Outline.legible_lines {o : Outline} (legible : o.Legible) {name : String}
    (isName : IsName name.toList) : ∀ line ∈ o.lines name, line.Legible := by
  intro line mem
  simp only [Outline.lines, List.cons_append, List.mem_cons, List.mem_append, List.mem_flatMap,
    List.not_mem_nil, or_false] at mem
  rcases mem with rfl | ⟨item, inside, inItem⟩ | rfl
  · refine ⟨⟨Or.inl rfl, Or.inr rfl, Or.inr rfl, trivial⟩, fun piece inLine => ?_⟩
    simp only [List.mem_cons, List.not_mem_nil, or_false] at inLine
    rcases inLine with rfl | rfl | rfl
    · exact isWord_of_chars (by decide) (by decide)
    · exact isName
    · trivial
  · exact Item.legible_lines (legible item inside) line inItem
  · exact legible_closingLine 0

theorem Stmt.legible_rename {s : Stmt} (legible : s.Legible) (f : ValueId → ValueId) :
    (s.rename f).Legible := by
  have written : (s.rename f).writtenTypes = s.writtenTypes := by
    simp only [Stmt.writtenTypes, Stmt.types_rename]
    rfl
  exact {
    kind := by rw [written]; exact legible.kind
    results := fun cell isCell => by
      have none := legible.results cell isCell
      simp [Stmt.rename, none]
    name := legible.name
    dotted := legible.dotted
    apart := fun isFunc none => legible.apart isFunc (by simpa [Stmt.rename] using none)
    symbol := legible.symbol
    attrs := legible.attrs
    types := by rw [written]; exact legible.types }

theorem Outline.legible_rename {o : Outline} (legible : o.Legible) (f : ValueId → ValueId) :
    (o.rename f).Legible := by
  intro item mem
  obtain ⟨old, inside, rfl⟩ := List.mem_map.mp mem
  have legibleOld := legible old inside
  cases old with
  | op s => exact Stmt.legible_rename legibleOld f
  | func sym params body =>
    refine ⟨legibleOld.1, fun param inParams => ?_, fun s inBody => ?_⟩
    · obtain ⟨before, inOld, rfl⟩ := List.mem_map.mp inParams
      exact legibleOld.2.1 before inOld
    · obtain ⟨before, inOld, rfl⟩ := List.mem_map.mp inBody
      exact Stmt.legible_rename (legibleOld.2.2 before inOld) f

theorem Outline.legible_of_mem_stmts {o : Outline} (legible : o.Legible) {s : Stmt}
    (mem : s ∈ o.stmts) : s.Legible := by
  obtain ⟨item, inside, inItem⟩ := List.mem_flatMap.mp mem
  have legibleItem := legible item inside
  cases item with
  | op t =>
    rw [List.mem_singleton.mp inItem]
    exact legibleItem
  | func sym params body => exact legibleItem.2.2 s inItem

theorem Outline.plain_of_legible {o : Outline} (legible : o.Legible) :
    ∀ s ∈ o.stmts, s.kind.isFunc = false :=
  fun _ mem => isFunc_of_kindOf (Outline.legible_of_mem_stmts legible mem).kind

end RngLowering
