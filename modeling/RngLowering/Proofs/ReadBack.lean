import RngLowering.Proofs.Reading

set_option autoImplicit false

namespace RngLowering

open Printer

namespace Reader

/-- The names of values in scope: their numbers. -/
def named (scope : List ValueId) : List (String × ValueId) := scope.map fun v => (toString v, v)

theorem toString_injective {v w : Nat} (same : toString v = toString w) : v = w := by
  have digits : Nat.toDigits 10 v = Nat.toDigits 10 w := by
    simpa using congrArg String.toList same
  calc
    v = Nat.ofDigitChars 10 (Nat.toDigits 10 v) 0 := Nat.ofDigitChars_ten_toDigits.symm
    _ = Nat.ofDigitChars 10 (Nat.toDigits 10 w) 0 := by rw [digits]
    _ = w := Nat.ofDigitChars_ten_toDigits

theorem lookup_named {scope : List ValueId} {v : ValueId} (inScope : v ∈ scope) :
    (named scope).lookup (toString v) = some v := by
  induction scope with
  | nil => cases inScope
  | cons w rest ih =>
    change List.lookup (toString v) ((toString w, w) :: named rest) = some v
    by_cases same : v = w
    · rw [same, List.lookup_cons_self]
    · have other : toString v ≠ toString w := fun equal => same (toString_injective equal)
      rw [List.lookup_cons, beq_false_of_ne other]
      exact ih (by simpa [same] using inScope)

theorem lookup_named_of_not_mem {scope : List ValueId} {v : ValueId} (fresh : v ∉ scope) :
    (named scope).lookup (toString v) = none := by
  induction scope with
  | nil => rfl
  | cons w rest ih =>
    simp only [List.mem_cons, not_or] at fresh
    have other : toString v ≠ toString w := fun equal => fresh.1 (toString_injective equal)
    change List.lookup (toString v) ((toString w, w) :: named rest) = none
    rw [List.lookup_cons, beq_false_of_ne other]
    exact ih fresh.2

/-- New values are brought into scope under their numbers. -/
theorem bindAll_named {scope values : List ValueId} (nodup : values.Nodup)
    (fresh : ∀ v ∈ values, v ∉ scope) {bindings : List (String × Nat × ValueId)}
    (same : bindings.map (fun binding => (binding.1, binding.2.2)) = named values) :
    bindAll (named scope) bindings = .ok (named (values.reverse ++ scope)) := by
  induction values generalizing scope bindings with
  | nil =>
    rw [List.map_eq_nil_iff.mp same]
    rfl
  | cons v rest ih =>
    cases bindings with
    | nil => cases same
    | cons head more =>
      obtain ⟨name, line, value⟩ := head
      obtain ⟨sameHead, sameRest⟩ := List.cons.inj same
      obtain ⟨rfl, rfl⟩ : name = toString v ∧ value = v := Prod.mk.inj sameHead
      rw [List.nodup_cons] at nodup
      have absent := lookup_named_of_not_mem (fresh value (by simp))
      have freshRest : ∀ w ∈ rest, w ∉ value :: scope := by
        intro w mem
        simp only [List.mem_cons, not_or]
        exact ⟨fun equal => nodup.1 (equal ▸ mem), fresh w (by simp [mem])⟩
      have later := ih nodup.2 freshRest sameRest
      simp only [bindAll, absent, Option.isSome_none, Bool.false_eq_true, ↓reduceIte]
      rw [List.reverse_cons, List.append_assoc]
      exact later

theorem tokens_commaList {first : Token → Piece} (same : ∀ t, (first t).token = t)
    (tokens : List Token) :
    (commaList first tokens).map Piece.token = tokens.intersperse .comma := by
  cases tokens with
  | nil => rfl
  | cons head rest =>
    simp only [commaList, List.map_cons, same]
    induction rest generalizing head with
    | nil => rfl
    | cons next more ih =>
      rw [List.intersperse_cons_cons, ← ih next]
      rfl

theorem OnLine.first_intersperse {line : Nat} {separator t : Token} {tokens : List Token}
    {placed : List PlacedToken} (onLine : OnLine line ((t :: tokens).intersperse separator) placed) :
    ∃ pos rest, placed = ⟨t, pos⟩ :: rest ∧ pos.line = line := by
  cases tokens with
  | nil =>
    obtain ⟨pos, rest, isFirst, here, -⟩ := onLine.of_cons
    exact ⟨pos, rest, isFirst, here⟩
  | cons next more =>
    obtain ⟨pos, rest, isFirst, here, -⟩ := onLine.of_cons
    exact ⟨pos, rest, isFirst, here⟩

/-- The next token of a text that begins on a line is the first one of that line. -/
theorem nextOn_append {line : Nat} {tokens : List Token} {placed : List PlacedToken}
    (onLine : OnLine line tokens placed) {after : Tokens} (ends : nextOn line after = none) :
    nextOn line (placed ++ after) = tokens.head? := by
  cases tokens with
  | nil =>
    rw [onLine.of_nil]
    exact ends
  | cons t rest =>
    obtain ⟨pos, more, rfl, here, -⟩ := onLine.of_cons
    simp [nextOn, PlacedToken.line, here]

theorem nextOn_eq_none {line : Nat} {after : Tokens} (later : ∀ t ∈ after, line < t.line) :
    nextOn line after = none := by
  cases after with
  | nil => rfl
  | cons t rest => simp [nextOn, Nat.ne_of_gt (later t (by simp))]

theorem resultNames_numbers {line : Nat} {v : ValueId} {values : List ValueId} {placed after : Tokens}
    (onLine : OnLine line (((v :: values).map numberToken).intersperse .comma) placed)
    (ends : ∀ pos rest, after ≠ ⟨.comma, pos⟩ :: rest) :
    resultNames (placed ++ after) = .ok ((v :: values).map toString, after) := by
  induction values generalizing v placed with
  | nil =>
    obtain ⟨pos, rest, rfl, -, done⟩ := onLine.of_cons
    rw [done.of_nil]
    simp only [numberToken, List.cons_append, List.nil_append, resultNames]
    rfl
  | cons w more ih =>
    rw [List.map_cons, List.map_cons, List.intersperse_cons_cons, ← List.map_cons] at onLine
    obtain ⟨pos, rest, rfl, -, onLine⟩ := onLine.of_cons
    obtain ⟨comma, rest, rfl, -, onLine⟩ := onLine.of_cons
    simp only [numberToken, List.cons_append, resultNames, ih onLine, List.map_cons]

theorem operandList_numbers {scope : List ValueId} {line : Nat} {v : ValueId}
    {values : List ValueId} (inScope : ∀ w ∈ v :: values, w ∈ scope) {placed after : Tokens}
    (onLine : OnLine line (((v :: values).map numberToken).intersperse .comma) placed)
    (ends : nextOn line after ≠ some .comma) :
    operandList (named scope) line (placed ++ after) = .ok (v :: values, after) := by
  induction values generalizing v placed with
  | nil =>
    obtain ⟨pos, rest, rfl, -, done⟩ := onLine.of_cons
    rw [done.of_nil]
    simp only [numberToken, List.cons_append, List.nil_append, operandList,
      lookup_named (inScope v (by simp))]
    split
    · split
      · rename_i here
        exact absurd (by simp [nextOn, PlacedToken.line, here]) ends
      · rfl
    · rfl
  | cons w more ih =>
    rw [List.map_cons, List.map_cons, List.intersperse_cons_cons, ← List.map_cons] at onLine
    obtain ⟨pos, rest, rfl, -, onLine⟩ := onLine.of_cons
    obtain ⟨comma, rest, rfl, here, onLine⟩ := onLine.of_cons
    have later := ih (fun u mem => inScope u (by simp [mem])) onLine
    simp only [numberToken, List.cons_append, operandList, lookup_named (inScope v (by simp)), here,
      later, ↓reduceIte]

theorem typeOfToken_token {ty : Ty} (proper : ty.Proper) (pos : Pos) :
    typeOfToken ⟨ty.token, pos⟩ = .ok ty := by
  simp [typeOfToken, Ty.token, Ty.ofText?_text proper]

theorem typeList_types {line : Nat} {ty : Ty} {types : List Ty}
    (proper : ∀ other ∈ ty :: types, other.Proper) {placed after : Tokens}
    (onLine : OnLine line (((ty :: types).map Ty.token).intersperse .comma) placed)
    (ends : nextOn line after ≠ some .comma) :
    typeList line (placed ++ after) = .ok (ty :: types, after) := by
  induction types generalizing ty placed with
  | nil =>
    obtain ⟨pos, rest, rfl, -, done⟩ := onLine.of_cons
    rw [done.of_nil]
    simp only [List.cons_append, List.nil_append, typeList,
      typeOfToken_token (proper ty (by simp))]
    split
    · split
      · rename_i here
        exact absurd (by simp [nextOn, PlacedToken.line, here]) ends
      · rfl
    · rfl
  | cons next more ih =>
    rw [List.map_cons, List.map_cons, List.intersperse_cons_cons, ← List.map_cons] at onLine
    obtain ⟨pos, rest, rfl, -, onLine⟩ := onLine.of_cons
    obtain ⟨comma, rest, rfl, here, onLine⟩ := onLine.of_cons
    have later := ih (fun other mem => proper other (by simp [mem])) onLine
    simp only [List.cons_append, typeList, typeOfToken_token (proper ty (by simp)), here, later,
      ↓reduceIte]

/-- The tokens of attributes up to the closing brace. -/
def attrListTokens : List (String × Attr) → List Token
  | [] => [.rbrace]
  | [attr] => attrTokens attr ++ [.rbrace]
  | attr :: rest => attrTokens attr ++ .comma :: attrListTokens rest

theorem tokens_spacedOut {first : Token → Piece} (same : ∀ t, (first t).token = t)
    (tokens : List Token) : (spacedOut first tokens).map Piece.token = tokens := by
  cases tokens with
  | nil => rfl
  | cons head rest => simp [spacedOut, same, Function.comp_def]

theorem tokens_attrPieces (attr : String × Attr) (attrs : List (String × Attr)) :
    (attrPieces (attr :: attrs)).map Piece.token = .lbrace :: attrListTokens (attr :: attrs) := by
  have rest : ∀ head : String × Attr,
      attrTokens head ++ (attrs.flatMap fun next => .comma :: attrTokens next) ++ [.rbrace] =
        attrListTokens (head :: attrs) := by
    induction attrs with
    | nil => simp [attrListTokens]
    | cons next more ih =>
      intro head
      rw [attrListTokens, ← ih next, List.flatMap_cons]
      · simp
      · simp
  rw [← rest attr]
  simp [attrPieces, tokens_spacedOut Piece.token_tight, tokens_spacedOut Piece.token_spaced,
    List.map_flatMap]

/-- A flag is written as its name, and a value after an equals sign. -/
theorem attrTokens_cases (key : String) (value : Attr) :
    attrTokens (key, value) = [.ident key] ∧ value = .flag ∨
      ∃ t, attrTokens (key, value) = [.ident key, .equals, t] ∧
        ∀ pos, attrValue key ⟨t, pos⟩ = .ok value := by
  cases value with
  | int value => exact Or.inr ⟨.int value, rfl, fun pos => rfl⟩
  | str text => exact Or.inr ⟨.str text, rfl, fun pos => rfl⟩
  | flag => exact Or.inl ⟨rfl, rfl⟩

theorem attrList_tokens {line : Nat} {attr : String × Attr} {attrs : List (String × Attr)}
    {placed : Tokens} (onLine : OnLine line (attrListTokens (attr :: attrs)) placed)
    (after : Tokens) : attrList (placed ++ after) = .ok (attr :: attrs, after) := by
  induction attrs generalizing attr placed with
  | nil =>
    obtain ⟨key, value⟩ := attr
    rw [attrListTokens] at onLine
    rcases attrTokens_cases key value with ⟨tokens, rfl⟩ | ⟨t, tokens, read⟩
    · rw [tokens] at onLine
      obtain ⟨pos, rest, rfl, -, onLine⟩ := onLine.of_cons
      obtain ⟨brace, rest, rfl, -, onLine⟩ := onLine.of_cons
      rw [onLine.of_nil]
      rfl
    · rw [tokens] at onLine
      obtain ⟨pos, rest, rfl, -, onLine⟩ := onLine.of_cons
      obtain ⟨equals, rest, rfl, -, onLine⟩ := onLine.of_cons
      obtain ⟨place, rest, rfl, -, onLine⟩ := onLine.of_cons
      obtain ⟨brace, rest, rfl, -, onLine⟩ := onLine.of_cons
      rw [onLine.of_nil]
      simp only [List.cons_append, List.nil_append, attrList, read]
  | cons next more ih =>
    obtain ⟨key, value⟩ := attr
    rw [attrListTokens] at onLine
    · rcases attrTokens_cases key value with ⟨tokens, rfl⟩ | ⟨t, tokens, read⟩
      · rw [tokens] at onLine
        obtain ⟨pos, rest, rfl, -, onLine⟩ := onLine.of_cons
        obtain ⟨comma, rest, rfl, -, onLine⟩ := onLine.of_cons
        simp only [List.cons_append, attrList, ih onLine]
      · rw [tokens] at onLine
        obtain ⟨pos, rest, rfl, -, onLine⟩ := onLine.of_cons
        obtain ⟨equals, rest, rfl, -, onLine⟩ := onLine.of_cons
        obtain ⟨place, rest, rfl, -, onLine⟩ := onLine.of_cons
        obtain ⟨comma, rest, rfl, -, onLine⟩ := onLine.of_cons
        simp only [List.cons_append, attrList, read, ih onLine]
    · simp

/-- The tokens of parameters up to the closing parenthesis. -/
def paramListTokens : List (ValueId × Ty) → List Token
  | [] => [.rparen]
  | [(v, ty)] => [numberToken v, .colon, ty.token, .rparen]
  | (v, ty) :: rest => numberToken v :: .colon :: ty.token :: .comma :: paramListTokens rest

theorem tokens_paramPieces (params : List (ValueId × Ty)) :
    (paramPieces params).map Piece.token ++ [.rparen] = paramListTokens params := by
  cases params with
  | nil => rfl
  | cons head rest =>
    induction rest generalizing head with
    | nil => rfl
    | cons next more ih =>
      rw [paramListTokens, ← ih next]
      · simp [paramPieces, paramPieces.param]
      · simp

def paramOn (line : Nat) (param : ValueId × Ty) : Param := ⟨toString param.1, line, param.2⟩

theorem paramList_tokens {line : Nat} {param : ValueId × Ty} {params : List (ValueId × Ty)}
    (proper : ∀ other ∈ param :: params, other.2.Proper) {placed : Tokens}
    (onLine : OnLine line (paramListTokens (param :: params)) placed) (after : Tokens) :
    paramList (placed ++ after) = .ok ((param :: params).map (paramOn line), after) := by
  induction params generalizing param placed with
  | nil =>
    obtain ⟨v, ty⟩ := param
    obtain ⟨pos, rest, rfl, here, onLine⟩ := onLine.of_cons
    obtain ⟨colon, rest, rfl, -, onLine⟩ := onLine.of_cons
    obtain ⟨place, rest, rfl, -, onLine⟩ := onLine.of_cons
    obtain ⟨paren, rest, rfl, -, onLine⟩ := onLine.of_cons
    rw [onLine.of_nil]
    simp [numberToken, paramList, typeOfToken_token (proper (v, ty) (by simp)), here, paramOn]
  | cons next more ih =>
    obtain ⟨v, ty⟩ := param
    obtain ⟨pos, rest, rfl, here, onLine⟩ := onLine.of_cons
    obtain ⟨colon, rest, rfl, -, onLine⟩ := onLine.of_cons
    obtain ⟨place, rest, rfl, -, onLine⟩ := onLine.of_cons
    obtain ⟨comma, rest, rfl, -, onLine⟩ := onLine.of_cons
    have later := ih (fun other mem => proper other (by simp [mem])) onLine
    simp [numberToken, paramList, typeOfToken_token (proper (v, ty) (by simp)), later, here, paramOn]

theorem results_tokens {s : Stmt} {line : Nat} {placed : Tokens}
    (onLine : OnLine line (s.resultPieces.map Piece.token) placed) (name : String) (pos : Pos)
    (rest : Tokens) :
    results (placed ++ ⟨.ident name, pos⟩ :: rest) =
      .ok (s.defs.map toString, ⟨.ident name, pos⟩ :: rest) := by
  unfold Stmt.resultPieces at onLine
  cases defs : s.defs with
  | nil =>
    rw [defs] at onLine
    rw [onLine.of_nil]
    rfl
  | cons v values =>
    simp only [defs, List.isEmpty_cons, Bool.false_eq_true, ↓reduceIte, List.map_append,
      tokens_commaList Piece.token_tight, List.map_cons, List.map_nil, Piece.token_spaced] at onLine
    obtain ⟨names, equals, rfl, onNames, onEquals⟩ := onLine.of_append
    obtain ⟨place, left, rfl, -, onEquals⟩ := onEquals.of_cons
    rw [onEquals.of_nil, List.append_assoc]
    have read : resultNames (names ++ ⟨.equals, place⟩ :: ⟨.ident name, pos⟩ :: rest) =
        .ok ((v :: values).map toString, ⟨.equals, place⟩ :: ⟨.ident name, pos⟩ :: rest) :=
      resultNames_numbers onNames (by simp)
    obtain ⟨start, others, rfl, -⟩ := OnLine.first_intersperse onNames
    simp only [results, numberToken, List.cons_append, List.nil_append] at read ⊢
    rw [read]
    simp [expect]

theorem symbolOn_tokens {symbol : Option String} {line : Nat} {placed after : Tokens}
    (onLine : OnLine line (symbol.toList.map Token.symbol) placed)
    (ends : ∀ sym, nextOn line after ≠ some (.symbol sym)) :
    symbolOn line (placed ++ after) = (symbol, after) := by
  unfold symbolOn
  cases symbol with
  | none =>
    rw [onLine.of_nil, List.nil_append]
    split
    · rename_i sym here
      exact absurd here (ends sym)
    · rfl
  | some sym =>
    obtain ⟨pos, rest, rfl, here, onLine⟩ := onLine.of_cons
    rw [onLine.of_nil]
    simp [nextOn, PlacedToken.line, here]

theorem operandsOn_tokens {scope values : List ValueId} (inScope : ∀ v ∈ values, v ∈ scope)
    {line : Nat} {placed after : Tokens}
    (onLine : OnLine line ((values.map numberToken).intersperse .comma) placed)
    (ends : ∀ name, nextOn line after ≠ some (.value name))
    (stops : nextOn line after ≠ some .comma) :
    operandsOn (named scope) line (placed ++ after) = .ok (values, after) := by
  unfold operandsOn
  cases values with
  | nil =>
    rw [onLine.of_nil, List.nil_append]
    split
    · rename_i name here
      exact absurd here (ends name)
    · rfl
  | cons v more =>
    have read := operandList_numbers inScope onLine stops
    obtain ⟨pos, rest, isFirst, here⟩ := OnLine.first_intersperse onLine
    have next : nextOn line (placed ++ after) = some (numberToken v) := by
      simp [isFirst, nextOn, PlacedToken.line, here]
    simp only [next, numberToken, read]

theorem attrsOn_tokens {attrs : List (String × Attr)} {line : Nat} {placed after : Tokens}
    (onLine : OnLine line ((attrPieces attrs).map Piece.token) placed)
    (ends : nextOn line after ≠ some .lbrace) :
    attrsOn line (placed ++ after) = .ok (attrs, after) := by
  unfold attrsOn
  cases attrs with
  | nil =>
    rw [onLine.of_nil, List.nil_append]
    split
    · rename_i here
      exact absurd here ends
    · rfl
  | cons attr more =>
    rw [tokens_attrPieces] at onLine
    obtain ⟨pos, rest, rfl, here, onLine⟩ := onLine.of_cons
    have read := attrList_tokens onLine after
    have next : nextOn line (⟨.lbrace, pos⟩ :: (rest ++ after)) = some .lbrace := by
      simp [nextOn, PlacedToken.line, here]
    simp only [List.cons_append, next, List.tail_cons]
    split
    · -- A list of attributes does not begin with the closing brace.
      rename_i place left closing
      rw [closing] at read
      cases read
    · exact read

theorem typesOn_tokens {types : List Ty} (proper : ∀ ty ∈ types, ty.Proper) {line : Nat}
    {placed after : Tokens}
    (onLine : OnLine line ((typePieces (types.map Ty.token)).map Piece.token) placed)
    (ends : nextOn line after = none) : typesOn line (placed ++ after) = .ok (types, after) := by
  unfold typesOn
  cases types with
  | nil =>
    rw [onLine.of_nil, List.nil_append, ends]
  | cons ty more =>
    change OnLine line
      (.colon :: (commaList .spaced ((ty :: more).map Ty.token)).map Piece.token) placed at onLine
    rw [tokens_commaList Piece.token_spaced] at onLine
    obtain ⟨pos, rest, rfl, here, onLine⟩ := onLine.of_cons
    have next : nextOn line (⟨.colon, pos⟩ :: (rest ++ after)) = some .colon := by
      simp [nextOn, PlacedToken.line, here]
    simp only [List.cons_append, next, List.tail_cons]
    exact typeList_types proper onLine (by simp [ends])

/-- The tokens that may come first in the rest of a line. -/
theorem head?_typePieces (types : List Ty) {t : Token}
    (head : ((typePieces (types.map Ty.token)).map Piece.token).head? = some t) : t = .colon := by
  cases types with
  | nil => cases head
  | cons ty more => exact (Option.some.inj head).symm

theorem head?_attrPieces (attrs : List (String × Attr)) (types : List Ty) {t : Token}
    (head : ((attrPieces attrs).map Piece.token ++
      (typePieces (types.map Ty.token)).map Piece.token).head? = some t) :
    t = .lbrace ∨ t = .colon := by
  cases attrs with
  | nil => exact Or.inr (head?_typePieces types head)
  | cons attr more => exact Or.inl (Option.some.inj head).symm

theorem head?_operands (values : List ValueId) (attrs : List (String × Attr)) (types : List Ty)
    {t : Token}
    (head : ((values.map numberToken).intersperse .comma ++ ((attrPieces attrs).map Piece.token ++
      (typePieces (types.map Ty.token)).map Piece.token)).head? = some t) :
    (∃ v, t = numberToken v) ∨ t = .lbrace ∨ t = .colon := by
  cases values with
  | nil => exact Or.inr (head?_attrPieces attrs types head)
  | cons v more =>
    refine Or.inl ⟨v, ?_⟩
    cases more with
    | nil => exact (Option.some.inj head).symm
    | cons w others => exact (Option.some.inj head).symm

def formOn (line : Nat) (s : Stmt) : OpText where
  results := s.defs.map toString
  name := s.kind.name
  line := line
  sym := s.kind.symbol?
  operands := s.operands
  attrs := s.kind.attrs
  types := s.writtenTypes

theorem opText_tokens {s : Stmt} (legible : s.Legible) {scope : List ValueId}
    (closed : s.Scoped scope) {line : Nat} {placed after : Tokens}
    (onLine : OnLine line (s.pieces.map Piece.token) placed) (ends : nextOn line after = none) :
    opText (named scope) (placed ++ after) = .ok (formOn line s, after) := by
  have name : s.namePiece.token = .ident s.kind.name := by
    unfold Stmt.namePiece
    split <;> rfl
  have symbols : (symbolPieces s.kind).map Piece.token = s.kind.symbol?.toList.map Token.symbol := by
    unfold symbolPieces
    cases s.kind.symbol? <;> rfl
  simp only [Stmt.pieces, List.map_append, List.map_cons, List.append_assoc, List.cons_append, name,
    symbols, tokens_commaList Piece.token_spaced] at onLine
  obtain ⟨inResults, rest, rfl, onResults, onLine⟩ := onLine.of_append
  obtain ⟨pos, rest, rfl, here, onLine⟩ := onLine.of_cons
  obtain ⟨inSymbol, rest, rfl, onSymbol, onRest⟩ := onLine.of_append
  obtain ⟨inOperands, rest, rfl, onOperands, onTail⟩ := onRest.of_append
  obtain ⟨inAttrs, inTypes, rfl, onAttrs, onTypes⟩ := onTail.of_append
  have readResults := results_tokens onResults s.kind.name pos
    (inSymbol ++ (inOperands ++ (inAttrs ++ (inTypes ++ after))))
  have readName : opName (⟨.ident s.kind.name, pos⟩ ::
      (inSymbol ++ (inOperands ++ (inAttrs ++ (inTypes ++ after))))) =
      .ok ((s.kind.name, line), inSymbol ++ (inOperands ++ (inAttrs ++ (inTypes ++ after)))) := by
    simp [opName, legible.dotted, PlacedToken.line, here]
  have readSymbol : symbolOn line (inSymbol ++ (inOperands ++ (inAttrs ++ (inTypes ++ after)))) =
      (s.kind.symbol?, inOperands ++ (inAttrs ++ (inTypes ++ after))) := by
    refine symbolOn_tokens onSymbol fun sym next => ?_
    have head := nextOn_append onRest ends
    simp only [List.append_assoc] at head
    rw [head] at next
    rcases head?_operands _ _ _ next with ⟨v, same⟩ | same | same <;> cases same
  have headTail := nextOn_append onTail ends
  simp only [List.append_assoc] at headTail
  have readOperands : operandsOn (named scope) line (inOperands ++ (inAttrs ++ (inTypes ++ after))) =
      .ok (s.operands, inAttrs ++ (inTypes ++ after)) := by
    refine operandsOn_tokens closed onOperands (fun name next => ?_) fun next => ?_
    · rw [headTail] at next
      rcases head?_attrPieces _ _ next with same | same <;> cases same
    · rw [headTail] at next
      rcases head?_attrPieces _ _ next with same | same <;> cases same
  have readAttrs : attrsOn line (inAttrs ++ (inTypes ++ after)) =
      .ok (s.kind.attrs, inTypes ++ after) := by
    refine attrsOn_tokens onAttrs fun next => ?_
    rw [nextOn_append onTypes ends] at next
    cases head?_typePieces _ next
  have readTypes := typesOn_tokens legible.types onTypes ends
  simp only [opText, List.append_assoc, List.cons_append, readResults, readName, readSymbol,
    readOperands, readAttrs, readTypes, bind, Except.bind, pure, Except.pure]
  rfl

/-- The values in scope have the names of their numbers, and come from the program's table. -/
structure Named (state : State) (scope : List ValueId) : Prop where
  names : state.scope = named scope
  bound : ∀ v ∈ scope, v < state.program.values.size

theorem not_mem_of_numbered {state : State} {scope : List ValueId} (names : Named state scope)
    {values : List ValueId} (numbered : NumberedFrom state.program.values.size values) :
    values.Nodup ∧ ∀ v ∈ values, v ∉ scope := by
  rw [numbered]
  refine ⟨List.nodup_range', fun v mem inScope => ?_⟩
  have least := (List.mem_range'_1.mp mem).1
  exact Nat.not_le_of_lt (names.bound v inScope) least

/-- After new values there are as many more, and they are in scope. -/
theorem Named.grow {state after : State} {scope values : List ValueId} (names : Named state scope)
    (numbered : NumberedFrom state.program.values.size values)
    (same : after.scope = named (values.reverse ++ scope))
    (size : after.program.values.size = state.program.values.size + values.length) :
    Named after (values.reverse ++ scope) where
  names := same
  bound := by
    intro v mem
    rw [size]
    rcases List.mem_append.mp mem with new | old
    · rw [List.mem_reverse, numbered] at new
      simpa using (List.mem_range'_1.mp new).2
    · exact Nat.lt_add_right _ (names.bound v old)

/-- A statement that was written is added to the region again. -/
structure Adds (parent : Option OpId) (state after : State) (scope : List ValueId) (s : Stmt) :
    Prop where
  names : Named after (s.scopeAfter scope)
  program : after.program.eraseLocs = state.program.eraseLocs.addStmt parent s

theorem placeOp_formOn {s : Stmt} (legible : s.Legible) {state : State} {scope : List ValueId}
    (names : Named state scope) (numbered : NumberedFrom state.program.values.size s.defs)
    {parent : Option OpId} {region : List OpId} (found : state.program.region parent = .ok region)
    (file : String) (start : Pos) (line : Nat) :
    ∃ after, placeOp file parent start state (formOn line s) = .ok after ∧
      Adds parent state after scope s := by
  have types : OpForm.resultTypes s.kind s.kind.name (s.defs.map toString) s.writtenTypes =
      .ok s.types := by
    unfold OpForm.resultTypes Stmt.writtenTypes
    cases kind : s.kind with
    | global cell => simp [Stmt.defs, Stmt.types, legible.results cell kind]
    | _ => simp
  obtain ⟨grown, grows, erased⟩ := Program.push_eq found s.kind s.operands
    (some ⟨file, start.line, start.col⟩) s.types
  have values : state.program.nextValues s.types.length = s.defs := by
    rw [Stmt.length_types, ← Stmt.length_defs]
    exact numbered.symm
  have results : s.defs.zip s.types = s.results := by
    simp [Stmt.defs, Stmt.types, List.zip_map']
  rw [values, results] at erased
  obtain ⟨nodup, fresh⟩ := not_mem_of_numbered names numbered
  have pairs : (s.defs.map toString).zip s.defs = named s.defs := by
    have mapped : (s.defs.map toString).zip (s.defs.map id) = _ := List.zip_map'
    rw [List.map_id] at mapped
    exact mapped
  refine ⟨⟨grown, named (s.scopeAfter scope)⟩, ?_, ?_, erased⟩
  · simp only [placeOp, formOn, legible.kind, types, atLine, bind, Except.bind, grows, values, pairs,
      names.names]
    rw [bindAll_named nodup fresh]
    · rfl
    · rw [named, List.map_map, List.map_map]
      rfl
  · refine names.grow numbered rfl ?_
    rw [← Program.values_eraseLocs, erased, Program.size_values_addStmt, Program.values_eraseLocs]

/-- A written statement begins neither like a function nor with a closing brace. -/
theorem first_of_pieces {s : Stmt} (legible : s.Legible) {line : Nat} {placed : Tokens}
    (onLine : OnLine line (s.pieces.map Piece.token) placed) (after : Tokens) :
    ∃ first rest, placed ++ after = first :: rest ∧ first.token ≠ .rbrace ∧
      startsFunction (first :: rest) = false := by
  cases defs : s.defs with
  | nil =>
    have notFunction : s.kind.name ≠ "func.func" := fun same =>
      legible.apart same (List.map_eq_nil_iff.mp defs)
    simp only [Stmt.pieces, Stmt.resultPieces, Stmt.namePiece, defs, List.isEmpty_nil, ↓reduceIte,
      List.nil_append, List.cons_append, List.map_cons] at onLine
    obtain ⟨pos, rest, rfl, -⟩ := onLine.of_cons
    exact ⟨_, _, rfl, by simp, by simpa [startsFunction] using notFunction⟩
  | cons v values =>
    simp only [Stmt.pieces, Stmt.resultPieces, defs, List.isEmpty_cons, Bool.false_eq_true,
      ↓reduceIte, List.append_assoc, List.map_cons, commaList, List.cons_append] at onLine
    obtain ⟨pos, rest, rfl, -⟩ := onLine.of_cons
    exact ⟨_, _, rfl, by simp [numberToken], by simp [startsFunction, numberToken]⟩

theorem readOp_pieces {s : Stmt} (legible : s.Legible) {state : State} {scope : List ValueId}
    (names : Named state scope) (closed : s.Scoped scope)
    (numbered : NumberedFrom state.program.values.size s.defs) {parent : Option OpId}
    {region : List OpId} (found : state.program.region parent = .ok region) {line : Nat}
    {placed after : Tokens} (onLine : OnLine line (s.pieces.map Piece.token) placed)
    (ends : nextOn line after = none) (file : String) :
    ∃ next, readOp file parent state (placed ++ after) = .ok (next, after) ∧
      Adds parent state next scope s := by
  have read := opText_tokens legible closed onLine ends
  obtain ⟨first, rest, shape, -⟩ := first_of_pieces legible onLine after
  obtain ⟨next, place, adds⟩ := placeOp_formOn legible names numbered found file first.pos line
  refine ⟨next, ?_, adds⟩
  rw [shape] at read ⊢
  simp only [readOp, names.names, read, place, bind, Except.bind, pure, Except.pure]

theorem Adds.size_values {parent : Option OpId} {state after : State} {scope : List ValueId}
    {s : Stmt} (adds : Adds parent state after scope s) :
    after.program.values.size = state.program.values.size + s.defs.length := by
  rw [← Program.values_eraseLocs, adds.program, Program.size_values_addStmt,
    Program.values_eraseLocs]

theorem region_eq_ok_iff {p : Program} {id : OpId} :
    (∃ region, p.region (some id) = .ok region) ↔ (p.eraseLocs.op? id).isSome = true := by
  rw [Program.op?_eraseLocs, Option.isSome_map]
  simp only [Program.region]
  cases p.op? id with
  | none => simp
  | some op => simp

/-- A region stays when statements are added to it. -/
theorem Adds.region {func : OpId} {state after : State} {scope : List ValueId} {s : Stmt}
    (adds : Adds (some func) state after scope s)
    (found : ∃ region, state.program.region (some func) = .ok region) :
    ∃ region, after.program.region (some func) = .ok region := by
  rw [region_eq_ok_iff] at found ⊢
  obtain ⟨op, here⟩ := Option.isSome_iff_exists.mp found
  rw [adds.program, Program.addStmt, Program.op?_modifyRegion, if_pos rfl,
    Program.op?_append_of_some here]
  rfl

theorem functionBody_lines {body : List Stmt} (legible : ∀ s ∈ body, s.Legible) {state : State}
    {scope : List ValueId} (names : Named state scope) (closed : Stmt.AllScoped scope body)
    (numbered : NumberedFrom state.program.values.size (body.flatMap Stmt.defs)) {func : OpId}
    (found : ∃ region, state.program.region (some func) = .ok region) {line : Nat}
    {rest : List (List Token)} {placed : Tokens}
    (onLines : OnLines line ((body.map fun s => s.pieces.map Piece.token) ++ [.rbrace] :: rest)
      placed) (file : String) :
    ∃ after left next, functionBody file func state placed = .ok (after, left) ∧
      OnLines next rest left ∧ Named after (Stmt.scopeAfterAll scope body) ∧
      after.program.eraseLocs =
        body.foldl (Program.addStmt (some func)) state.program.eraseLocs := by
  induction body generalizing state scope line placed with
  | nil =>
    obtain ⟨first, more, rfl, onLine, onRest⟩ := onLines
    obtain ⟨pos, others, rfl, -, done⟩ := onLine.of_cons
    refine ⟨state, more, line + 1, ?_, onRest, names, rfl⟩
    rw [done.of_nil, List.cons_append, List.nil_append, functionBody]
    simp
  | cons s others ih =>
    obtain ⟨first, more, rfl, onLine, onRest⟩ := onLines
    rw [List.flatMap_cons, NumberedFrom.append_iff] at numbered
    have ends : nextOn line more = none := nextOn_eq_none onRest.le
    obtain ⟨region, inRegion⟩ := found
    obtain ⟨next, read, adds⟩ := readOp_pieces (legible s (by simp)) names closed.1 numbered.1
      inRegion onLine ends file
    rw [← adds.size_values] at numbered
    obtain ⟨after, left, last, readRest, onLeft, namesAfter, program⟩ :=
      ih (fun t mem => legible t (by simp [mem])) adds.names closed.2 numbered.2
        (adds.region ⟨region, inRegion⟩) onRest
    obtain ⟨head, tail, shape, notBrace, notFunction⟩ :=
      first_of_pieces (legible s (by simp)) onLine more
    refine ⟨after, left, last, ?_, onLeft, namesAfter, ?_⟩
    · rw [shape] at read ⊢
      rw [functionBody, if_neg notBrace, if_neg (by simp [notFunction])]
      split
      · rename_i reason failed
        rw [read] at failed
        cases failed
      · rename_i reached remaining succeeded
        rw [read] at succeeded
        cases succeeded
        exact readRest
    · rw [program, adds.program, List.foldl_cons]

theorem params_tokens {list : List (ValueId × Ty)} (proper : ∀ param ∈ list, param.2.Proper)
    {line : Nat} {placed : Tokens}
    (onLine : OnLine line (.lparen :: paramListTokens list) placed) (after : Tokens) :
    params (placed ++ after) = .ok (list.map (paramOn line), after) := by
  obtain ⟨pos, rest, rfl, -, onLine⟩ := onLine.of_cons
  simp only [params, List.cons_append, expect, ↓reduceIte]
  cases list with
  | nil =>
    obtain ⟨paren, rest, rfl, -, done⟩ := onLine.of_cons
    rw [done.of_nil]
    rfl
  | cons param more =>
    have read := paramList_tokens proper onLine after
    split
    · rename_i absurd
      cases absurd
    · -- A list of parameters does not begin with the closing parenthesis.
      rename_i place left closing
      rw [Except.ok.inj closing] at read
      cases read
    · rename_i others same
      rw [← Except.ok.inj same]
      exact read

theorem functionHead_tokens {sym : String} {list : List (ValueId × Ty)}
    (proper : ∀ param ∈ list, param.2.Proper) {state : State}
    (numbered : NumberedFrom state.program.values.size (list.map Prod.fst)) {line : Nat}
    {placed : Tokens} (onLine : OnLine line ((headPieces sym list).map Piece.token) placed)
    (file : String) (after : Tokens) :
    ∃ inside, functionHead file state (placed ++ after) =
        .ok ((state.program.ops.size, inside), after) ∧
      startsFunction (placed ++ after) = true ∧ Named inside (Item.paramScope list) ∧
      inside.program.eraseLocs = state.program.eraseLocs.addFunc sym list := by
  have tokens : (headPieces sym list).map Piece.token =
      .ident "func.func" :: .symbol sym :: ((.lparen :: paramListTokens list) ++ [.lbrace]) := by
    rw [← tokens_paramPieces]
    simp [headPieces]
  rw [tokens] at onLine
  obtain ⟨start, rest, rfl, -, onLine⟩ := onLine.of_cons
  obtain ⟨pos, rest, rfl, -, onLine⟩ := onLine.of_cons
  obtain ⟨inParams, inBrace, rfl, onParams, onBrace⟩ := onLine.of_append
  obtain ⟨brace, rest, rfl, -, done⟩ := onBrace.of_cons
  rw [done.of_nil]
  obtain ⟨grown, grows, erased⟩ := Program.addFunction_eq state.program sym
    ((list.map (paramOn line)).map Param.ty) (some ⟨file, start.line, start.col⟩)
  have types : (list.map (paramOn line)).map Param.ty = list.map Prod.snd := by
    rw [List.map_map]
    rfl
  have values : state.program.nextValues ((list.map (paramOn line)).map Param.ty).length =
      list.map Prod.fst := by
    rw [numbered, Program.nextValues]
    simp
  rw [values] at grows
  rw [values, types, List.zip_map', List.map_id'' (fun param => rfl)] at erased
  have names : Named { program := state.program } [] := ⟨rfl, by simp⟩
  obtain ⟨nodup, fresh⟩ := not_mem_of_numbered names numbered
  have bound : ∀ bindings : List (String × Nat × ValueId),
      bindings.map (fun binding => (binding.1, binding.2.2)) = named (list.map Prod.fst) →
      bindAll [] bindings = .ok (named (Item.paramScope list)) := by
    intro bindings same
    rw [Item.paramScope, ← List.append_nil (list.map Prod.fst).reverse]
    exact bindAll_named nodup fresh same
  refine ⟨⟨grown, named (Item.paramScope list)⟩, ?_, by simp [startsFunction], ?_, erased⟩
  · have readParams := params_tokens proper onParams (⟨.lbrace, brace⟩ :: after)
    simp only [List.append_assoc, List.cons_append, List.nil_append, functionHead, functionName,
      readParams, grows, expect, bind, Except.bind, pure, Except.pure, ↓reduceIte]
    rw [bound]
    simp [List.zip_map', named, paramOn, Function.comp_def]
  · rw [Item.paramScope, ← List.append_nil (list.map Prod.fst).reverse]
    refine names.grow numbered rfl ?_
    rw [← Program.values_eraseLocs, erased, Program.size_values_addFunc, Program.values_eraseLocs,
      List.length_map]

/-- An item that was written is added to the program again. -/
structure AddsItem (state after : State) (scope : List ValueId) (item : Item) : Prop where
  names : Named after (item.scopeAfter scope)
  program : after.program.eraseLocs = state.program.eraseLocs.addItem item

theorem AddsItem.size_values {state after : State} {scope : List ValueId} {item : Item}
    (adds : AddsItem state after scope item) :
    after.program.values.size = state.program.values.size + item.defs.length := by
  rw [← Program.values_eraseLocs, adds.program, Program.size_values_addItem,
    Program.values_eraseLocs]

theorem readItem_lines {item : Item} (legible : item.Legible) {state : State}
    {scope : List ValueId} (names : Named state scope) (closed : item.Scoped scope)
    (numbered : NumberedFrom state.program.values.size item.defs) {line : Nat}
    {rest : List (List Token)} {placed : Tokens}
    (onLines : OnLines line (item.lines.map Line.tokens ++ rest) placed) (file : String) :
    ∃ first more after left next, placed = first :: more ∧ first.token ≠ .rbrace ∧
      readItem file state placed = .ok (after, left) ∧ OnLines next rest left ∧
      AddsItem state after scope item := by
  cases item with
  | op s =>
    obtain ⟨inLine, more, rfl, onLine, onRest⟩ := onLines
    have ends : nextOn line more = none := nextOn_eq_none onRest.le
    obtain ⟨first, others, shape, notBrace, notFunction⟩ := first_of_pieces legible onLine more
    obtain ⟨after, read, adds⟩ := readOp_pieces legible names closed numbered
      (rfl : state.program.region none = .ok state.program.body) onLine ends file
    refine ⟨first, others, after, more, line + 1, shape, notBrace, ?_, onRest, adds.names,
      adds.program⟩
    rw [shape] at read ⊢
    rw [readItem, if_neg (by simp [notFunction]), read]
  | func sym params body =>
    obtain ⟨isName, proper, legibleBody⟩ := legible
    rw [Item.defs, NumberedFrom.append_iff] at numbered
    have shape : (Item.func sym params body).lines.map Line.tokens ++ rest =
        (headPieces sym params).map Piece.token ::
          ((body.map fun s => s.pieces.map Piece.token) ++ [.rbrace] :: rest) := by
      simp [Item.lines, Line.tokens, closingLine, Function.comp_def]
    rw [shape] at onLines
    obtain ⟨inHead, more, rfl, onHead, onBody⟩ := onLines
    obtain ⟨inside, readHead, isFunction, namesInside, program⟩ :=
      functionHead_tokens proper numbered.1 onHead file more
    have size : inside.program.values.size =
        state.program.values.size + (params.map Prod.fst).length := by
      rw [← Program.values_eraseLocs, program, Program.size_values_addFunc, List.length_map,
        Program.values_eraseLocs]
    have found : ∃ region, inside.program.region (some state.program.ops.size) = .ok region := by
      rw [region_eq_ok_iff, program, Program.addFunc, Program.op?_modifyRegion, if_neg (by simp),
        Program.op?_append, if_pos (Program.size_ops_eraseLocs _).symm]
      rfl
    rw [← size] at numbered
    obtain ⟨after, left, next, readBody, onLeft, namesAfter, programAfter⟩ :=
      functionBody_lines legibleBody namesInside closed numbered.2 found onBody file
    obtain ⟨pos, others, rfl, -⟩ := onHead.of_cons
    refine ⟨_, _, after, left, next, rfl, by simp, ?_, onLeft, namesAfter, ?_⟩
    · rw [readItem, if_pos isFunction, readFunction, readHead]
      exact readBody
    · rw [programAfter, program, ← Program.size_ops_eraseLocs]
      rfl

theorem readItems_lines {o : Outline} (legible : o.Legible) {state : State}
    {scope : List ValueId} (names : Named state scope) (closed : o.Scoped scope)
    (numbered : NumberedFrom state.program.values.size o.defs) {line : Nat} {placed : Tokens}
    (onLines : OnLines line ((o.flatMap Item.lines).map Line.tokens ++ [[.rbrace]]) placed)
    (file : String) :
    ∃ after, readItems file true state placed = .ok (after, []) ∧
      after.program.eraseLocs = o.foldl Program.addItem state.program.eraseLocs := by
  induction o generalizing state scope line placed with
  | nil =>
    obtain ⟨first, more, rfl, onLine, rfl⟩ := onLines
    obtain ⟨pos, others, rfl, -, done⟩ := onLine.of_cons
    refine ⟨state, ?_, rfl⟩
    rw [done.of_nil, List.append_nil, readItems]
    simp
  | cons item others ih =>
    rw [List.flatMap_cons, List.map_append, List.append_assoc] at onLines
    rw [Outline.defs_cons, NumberedFrom.append_iff] at numbered
    obtain ⟨first, more, middle, left, next, shape, notBrace, read, onLeft, adds⟩ :=
      readItem_lines (legible item (by simp)) names closed.1 numbered.1 onLines file
    rw [← adds.size_values] at numbered
    obtain ⟨after, readRest, program⟩ :=
      ih (fun other mem => legible other (by simp [mem])) adds.names closed.2 numbered.2 onLeft
    refine ⟨after, ?_, by rw [program, adds.program, List.foldl_cons]⟩
    rw [shape] at read ⊢
    rw [readItems, if_neg (by simp [notBrace])]
    split
    · rename_i reason failed
      rw [read] at failed
      cases failed
    · rename_i reached remaining succeeded
      rw [read] at succeeded
      cases succeeded
      exact readRest

end Reader

/-- The lines of a legible outline are read as the program built from it. -/
theorem Program.ofText_lines {o : Outline} (legible : o.Legible) (closed : o.Scoped [])
    (numbered : NumberedFrom 0 o.defs) {name : String} (isName : IsName name.toList)
    (file : String) :
    ∃ q, Program.ofText file (String.join ((o.lines name).map Line.text)) = .ok q ∧
      q.eraseLocs = Program.build name o := by
  obtain ⟨placed, onLines, lexed⟩ := tokens_lines (o.legible_lines legible isName)
  have shape : (o.lines name).map Line.tokens =
      [.ident "module", .symbol name, .lbrace] ::
        ((o.flatMap Item.lines).map Line.tokens ++ [[.rbrace]]) := by
    simp [Outline.lines, Line.tokens, closingLine]
  rw [shape] at onLines
  obtain ⟨inHead, more, rfl, onHead, onRest⟩ := onLines
  obtain ⟨start, rest, rfl, -, onHead⟩ := onHead.of_cons
  obtain ⟨pos, rest, rfl, -, onHead⟩ := onHead.of_cons
  obtain ⟨brace, rest, rfl, -, done⟩ := onHead.of_cons
  rw [done.of_nil] at lexed
  have names : Reader.Named { program := { name } } [] := ⟨rfl, by simp⟩
  obtain ⟨after, read, program⟩ := Reader.readItems_lines legible names closed numbered onRest file
  refine ⟨after.program, ?_, ?_⟩
  · simp [Program.ofText, lexed, Reader.readProgram, Reader.wrapper, Reader.expect, read, bind,
      Except.bind, pure, Except.pure]
  · rw [program, Program.build]
    simp [Program.eraseLocs]

end RngLowering
