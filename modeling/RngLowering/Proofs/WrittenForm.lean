import RngLowering.Program.Reader

set_option autoImplicit false

namespace RngLowering

def separated (groups : List (List Token)) : List Token := [.comma].intercalate groups

def valueTokens (names : List String) : List Token := separated (names.map fun name => [.value name])

def wordTokens (words : List String) : List Token := separated (words.map fun word => [.ident word])

def attrTokens : String × Attr → List Token
  | (key, .int value) => [.ident key, .equals, .int value]
  | (key, .str text) => [.ident key, .equals, .str text]
  | (key, .flag) => [.ident key]

structure OpWords where
  results : List String
  name : String
  sym : Option String
  operands : List String
  /-- What stands in braces, if there are any. -/
  attrs : Option (List (String × Attr))
  types : List String

def resultPart (results : List String) : List Token :=
  if results = [] then [] else valueTokens results ++ [.equals]

def attrPart : Option (List (String × Attr)) → List Token
  | none => []
  | some attrs => .lbrace :: (separated (attrs.map attrTokens) ++ [.rbrace])

def typePart (types : List String) : List Token :=
  if types = [] then [] else .colon :: wordTokens types

def OpWords.tokens (w : OpWords) : List Token :=
  resultPart w.results ++ .ident w.name :: (w.sym.toList.map .symbol ++ valueTokens w.operands ++
    attrPart w.attrs ++ typePart w.types)

def paramTokens (params : List (String × String)) : List Token :=
  separated (params.map fun param => [.value param.1, .colon, .ident param.2])

/-- The tokens of a function up to the brace that opens its body. -/
def functionTokens (sym : String) (params : List (String × String)) : List Token :=
  .ident "func.func" :: .symbol sym :: .lparen :: (paramTokens params ++ [.rparen] ++ [.lbrace])

/-- The tokens say what the operation is. -/
def Op.Written (op : Op) (words : List Token) : Prop :=
  (∃ (w : OpWords) (types : List Ty), words = w.tokens ∧ w.types.map Ty.ofText? = types.map some ∧
    OpForm.kindOf w.name w.sym (w.attrs.getD []) types = .ok op.kind ∧
    op.results.length = w.results.length ∧ op.operands.length = w.operands.length) ∨
  ∃ sym params, words = functionTokens sym params ∧ op.kind = .func sym ∧
    op.args.length = params.length

theorem separated_cons {groups : List (List Token)} (more : groups ≠ []) (group : List Token) :
    separated (group :: groups) = group ++ .comma :: separated groups := by
  obtain ⟨second, rest, rfl⟩ := List.exists_cons_of_ne_nil more
  simp [separated, List.intercalate_cons_cons]

@[simp] theorem separated_singleton (group : List Token) : separated [group] = group := by
  simp [separated]

namespace Reader

/-- The list begins with these tokens, and the rest comes after them. -/
def Takes (ts : Tokens) (words : List Token) (rest : Tokens) : Prop :=
  ∃ span, ts = span ++ rest ∧ span.map PlacedToken.token = words

theorem Takes.nil (ts : Tokens) : Takes ts [] ts := ⟨[], rfl, rfl⟩

theorem Takes.cons {t : PlacedToken} {ts rest : Tokens} {word : Token} {words : List Token}
    (head : t.token = word) (later : Takes ts words rest) :
    Takes (t :: ts) (word :: words) rest := by
  obtain ⟨span, rfl, rfl⟩ := later
  exact ⟨t :: span, rfl, by rw [List.map_cons, head]⟩

theorem Takes.append {ts middle rest : Tokens} {first second : List Token}
    (left : Takes ts first middle) (right : Takes middle second rest) :
    Takes ts (first ++ second) rest := by
  obtain ⟨span, rfl, rfl⟩ := left
  obtain ⟨more, rfl, rfl⟩ := right
  exact ⟨span ++ more, by rw [List.append_assoc], List.map_append⟩

theorem Takes.one {t : PlacedToken} {ts : Tokens} {word : Token} (head : t.token = word) :
    Takes (t :: ts) [word] ts :=
  .cons head (.nil ts)

theorem expect_takes {wanted : Token} {ts rest : Tokens} (read : expect wanted ts = .ok rest) :
    Takes ts [wanted] rest := by
  cases ts with
  | nil => cases read
  | cons t more =>
    simp only [expect] at read
    split at read
    · rename_i head
      cases read
      exact .one head
    · cases read

theorem typeOfToken_word {t : PlacedToken} {ty : Ty} (read : typeOfToken t = .ok ty) :
    ∃ word, t.token = .ident word ∧ Ty.ofText? word = some ty := by
  unfold typeOfToken at read
  split at read
  · rename_i word token
    split at read
    · rename_i found
      cases read
      exact ⟨word, token, found⟩
    · cases read
  · cases read

theorem attrValue_tokens {key : String} {t : PlacedToken} {value : Attr}
    (read : attrValue key t = .ok value) :
    attrTokens (key, value) = [.ident key, .equals, t.token] := by
  unfold attrValue at read
  split at read
  · rename_i token
    cases read
    rw [token]
    rfl
  · rename_i token
    cases read
    rw [token]
    rfl
  · cases read

theorem resultNames_takes {ts rest : Tokens} {names : List String}
    (read : resultNames ts = .ok (names, rest)) :
    names ≠ [] ∧ Takes ts (valueTokens names) rest := by
  fun_induction resultNames ts generalizing names with
  | case1 => cases read
  | case2 name _ _ more names left readMore ih =>
    cases read
    obtain ⟨some, takes⟩ := ih readMore
    refine ⟨by simp, ?_⟩
    rw [valueTokens, List.map_cons, separated_cons (by simpa using some)]
    exact .cons rfl (.cons rfl takes)
  | case3 => cases read
  | case4 name _ rest _ =>
    cases read
    exact ⟨by simp, .one rfl⟩
  | case5 => cases read

theorem operandList_takes {scope : List (String × ValueId)} {line : Nat} {ts rest : Tokens}
    {values : List ValueId} (read : operandList scope line ts = .ok (values, rest)) :
    ∃ names, names ≠ [] ∧ names.length = values.length ∧ Takes ts (valueTokens names) rest := by
  fun_induction operandList scope line ts generalizing values with
  | case3 name _ _ _ _ more _ values left readMore ih =>
    cases read
    obtain ⟨names, some, length, takes⟩ := ih readMore
    refine ⟨name :: names, by simp, by simp [length], ?_⟩
    rw [valueTokens, List.map_cons, separated_cons (by simpa using some)]
    exact .cons rfl (.cons rfl takes)
  | case5 name =>
    cases read
    exact ⟨[name], by simp, rfl, .one rfl⟩
  | case6 name =>
    cases read
    exact ⟨[name], by simp, rfl, .one rfl⟩
  | _ => cases read

theorem typeList_takes {line : Nat} {ts rest : Tokens} {types : List Ty}
    (read : typeList line ts = .ok (types, rest)) :
    ∃ words, words ≠ [] ∧ words.map Ty.ofText? = types.map some ∧
      Takes ts (wordTokens words) rest := by
  fun_induction typeList line ts generalizing types with
  | case3 t ty readHead _ more _ types left readMore ih =>
    cases read
    obtain ⟨word, token, found⟩ := typeOfToken_word readHead
    obtain ⟨words, some, same, takes⟩ := ih readMore
    refine ⟨word :: words, by simp, by simp [found, same], ?_⟩
    rw [wordTokens, List.map_cons, separated_cons (by simpa using some)]
    exact .cons token (.cons rfl takes)
  | case5 t ty readHead =>
    cases read
    obtain ⟨word, token, found⟩ := typeOfToken_word readHead
    exact ⟨[word], by simp, by simp [found], .one token⟩
  | case6 t ty readHead =>
    cases read
    obtain ⟨word, token, found⟩ := typeOfToken_word readHead
    exact ⟨[word], by simp, by simp [found], .one token⟩
  | _ => cases read

theorem attrList_takes {ts rest : Tokens} {attrs : List (String × Attr)}
    (read : attrList ts = .ok (attrs, rest)) :
    attrs ≠ [] ∧ Takes ts (separated (attrs.map attrTokens) ++ [.rbrace]) rest := by
  fun_induction attrList ts generalizing attrs with
  | case4 key _ _ t value readValue _ left =>
    cases read
    refine ⟨by simp, ?_⟩
    rw [List.map_singleton, separated_singleton, attrValue_tokens readValue]
    exact .cons rfl (.cons rfl (.cons rfl (.one rfl)))
  | case5 key _ _ t value readValue _ more attrs left readMore ih =>
    cases read
    obtain ⟨some, takes⟩ := ih readMore
    refine ⟨by simp, ?_⟩
    rw [List.map_cons, separated_cons (by simpa using some), attrValue_tokens readValue]
    exact .cons rfl (.cons rfl (.cons rfl (.cons rfl takes)))
  | case9 key _ _ left =>
    cases read
    exact ⟨by simp, .cons rfl (.one rfl)⟩
  | case10 key _ _ more attrs left readMore ih =>
    cases read
    obtain ⟨some, takes⟩ := ih readMore
    refine ⟨by simp, ?_⟩
    rw [List.map_cons, separated_cons (by simpa using some)]
    exact .cons rfl (.cons rfl takes)
  | _ => cases read

theorem paramList_takes {ts rest : Tokens} {params : List Param}
    (read : paramList ts = .ok (params, rest)) :
    ∃ words, words ≠ [] ∧ words.length = params.length ∧
      Takes ts (paramTokens words ++ [.rparen]) rest := by
  fun_induction paramList ts generalizing params with
  | case4 name _ _ t ty readType _ left =>
    cases read
    obtain ⟨word, token, -⟩ := typeOfToken_word readType
    exact ⟨[(name, word)], by simp, rfl, .cons rfl (.cons rfl (.cons token (.one rfl)))⟩
  | case5 name _ _ t ty readType _ more params left readMore ih =>
    cases read
    obtain ⟨word, token, -⟩ := typeOfToken_word readType
    obtain ⟨words, some, length, takes⟩ := ih readMore
    refine ⟨(name, word) :: words, by simp, by simp [length], ?_⟩
    rw [paramTokens, List.map_cons, separated_cons (by simpa using some)]
    exact .cons rfl (.cons rfl (.cons token (.cons rfl takes)))
  | _ => cases read

/-- The words are those of an operation as it was read. -/
structure Writes (w : OpWords) (form : OpText) : Prop where
  results : w.results = form.results
  name : w.name = form.name
  sym : w.sym = form.sym
  operands : w.operands.length = form.operands.length
  attrs : w.attrs.getD [] = form.attrs
  types : w.types.map Ty.ofText? = form.types.map some

theorem nextOn_eq_some {line : Nat} {ts : Tokens} {word : Token}
    (next : nextOn line ts = some word) : ∃ t rest, ts = t :: rest ∧ t.token = word := by
  cases ts with
  | nil => cases next
  | cons t rest =>
    simp only [nextOn] at next
    split at next
    · exact ⟨t, rest, rfl, Option.some.inj next⟩
    · cases next

theorem results_takes {ts rest : Tokens} {names : List String}
    (read : results ts = .ok (names, rest)) :
    Takes ts (resultPart names) rest := by
  unfold results at read
  split at read
  · split at read
    · cases read
    · rename_i readNames
      split at read
      · cases read
      · rename_i readEquals
        cases read
        obtain ⟨some, takes⟩ := resultNames_takes readNames
        rw [resultPart, if_neg some]
        exact takes.append (expect_takes readEquals)
  · cases read
    exact .nil ts

theorem opName_takes {ts rest : Tokens} {name : String} {line : Nat}
    (read : opName ts = .ok ((name, line), rest)) : Takes ts [.ident name] rest := by
  cases ts with
  | nil => cases read
  | cons t more =>
    simp only [opName] at read
    split at read
    · rename_i token
      split at read
      · cases read
        exact .one token
      · cases read
    · cases read

theorem symbolOn_takes (line : Nat) (ts : Tokens) :
    Takes ts ((symbolOn line ts).1.toList.map .symbol) (symbolOn line ts).2 := by
  unfold symbolOn
  split
  · rename_i next
    obtain ⟨t, rest, rfl, token⟩ := nextOn_eq_some next
    exact .one token
  · exact .nil ts

theorem operandsOn_takes {scope : List (String × ValueId)} {line : Nat} {ts rest : Tokens}
    {values : List ValueId} (read : operandsOn scope line ts = .ok (values, rest)) :
    ∃ names, names.length = values.length ∧ Takes ts (valueTokens names) rest := by
  unfold operandsOn at read
  split at read
  · obtain ⟨names, -, length, takes⟩ := operandList_takes read
    exact ⟨names, length, takes⟩
  · cases read
    exact ⟨[], rfl, .nil ts⟩

theorem attrsOn_takes {line : Nat} {ts rest : Tokens} {attrs : List (String × Attr)}
    (read : attrsOn line ts = .ok (attrs, rest)) :
    ∃ written : Option (List (String × Attr)), written.getD [] = attrs ∧
      Takes ts (attrPart written) rest := by
  unfold attrsOn at read
  split at read
  · rename_i next
    obtain ⟨t, more, rfl, token⟩ := nextOn_eq_some next
    split at read
    · rename_i left tail
      cases read
      refine ⟨some [], rfl, .cons token ?_⟩
      rw [show more = _ from tail]
      exact .one rfl
    · obtain ⟨-, takes⟩ := attrList_takes read
      exact ⟨some attrs, rfl, .cons token takes⟩
  · cases read
    exact ⟨none, rfl, .nil ts⟩

theorem typesOn_takes {line : Nat} {ts rest : Tokens} {types : List Ty}
    (read : typesOn line ts = .ok (types, rest)) :
    ∃ words, words.map Ty.ofText? = types.map some ∧ Takes ts (typePart words) rest := by
  unfold typesOn at read
  split at read
  · rename_i next
    obtain ⟨t, more, rfl, token⟩ := nextOn_eq_some next
    obtain ⟨words, some, same, takes⟩ := typeList_takes read
    refine ⟨words, same, ?_⟩
    rw [typePart, if_neg some]
    exact .cons token takes
  · cases read
    exact ⟨[], rfl, .nil ts⟩

/-- Reading an operation takes its words. -/
theorem opText_takes {scope : List (String × ValueId)} {ts rest : Tokens} {form : OpText}
    (read : opText scope ts = .ok (form, rest)) :
    ∃ w : OpWords, Writes w form ∧ Takes ts w.tokens rest := by
  obtain ⟨⟨names, afterResults⟩, readResults, read⟩ := bind_eq_ok.1 read
  obtain ⟨⟨⟨name, line⟩, afterName⟩, readName, read⟩ := bind_eq_ok.1 read
  obtain ⟨⟨values, afterOperands⟩, readOperands, read⟩ := bind_eq_ok.1 read
  obtain ⟨⟨attrs, afterAttrs⟩, readAttrs, read⟩ := bind_eq_ok.1 read
  obtain ⟨⟨types, afterTypes⟩, readTypes, read⟩ := bind_eq_ok.1 read
  cases read
  obtain ⟨operands, count, takesOperands⟩ := operandsOn_takes readOperands
  obtain ⟨written, same, takesAttrs⟩ := attrsOn_takes readAttrs
  obtain ⟨words, typed, takesTypes⟩ := typesOn_takes readTypes
  refine ⟨⟨names, name, (symbolOn line afterName).1, operands, written, words⟩,
    ⟨rfl, rfl, rfl, count, same, typed⟩, ?_⟩
  have takesName := (results_takes readResults).append (opName_takes readName)
  have takesParts := (((symbolOn_takes line afterName).append takesOperands).append
    takesAttrs).append takesTypes
  have takes := takesName.append takesParts
  rw [List.append_assoc] at takes
  exact takes

theorem functionName_takes {ts rest : Tokens} {sym : String}
    (read : functionName ts = .ok (sym, rest)) : Takes ts [.symbol sym] rest := by
  cases ts with
  | nil => cases read
  | cons t more =>
    simp only [functionName] at read
    split at read
    · rename_i token
      cases read
      exact .one token
    · cases read

theorem params_takes {ts rest : Tokens} {list : List Param} (read : params ts = .ok (list, rest)) :
    ∃ words, words.length = list.length ∧
      Takes ts (.lparen :: (paramTokens words ++ [.rparen])) rest := by
  unfold params at read
  split at read
  · cases read
  · rename_i opened
    cases read
    exact ⟨[], rfl, (expect_takes opened).append (.one rfl)⟩
  · rename_i opened
    obtain ⟨words, -, length, takes⟩ := paramList_takes read
    exact ⟨words, length, (expect_takes opened).append takes⟩

end Reader

end RngLowering
