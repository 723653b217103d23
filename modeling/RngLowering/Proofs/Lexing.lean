import RngLowering.Proofs.Decimal
import RngLowering.Token.Lexer

set_option autoImplicit false

namespace RngLowering

namespace Lexer

theorem isBlank_of_visible {c : Char} (lower : 33 ≤ c.toNat) (upper : c.toNat ≤ 126) :
    Text.isBlank c = false := by
  simp only [Text.isBlank, Text.inRanges, Text.blankRanges, List.any_cons, List.any_nil,
    Bool.or_false, Bool.or_eq_false_iff, Bool.and_eq_false_iff, decide_eq_false_iff_not]
  omega

/-- The characters that begin a name lie past the digits. -/
theorem range_of_isNameStart {c : Char} (start : isNameStart c = true) :
    65 ≤ c.toNat ∧ c.toNat ≤ 122 := by
  have letter : c.isAlpha = (decide (65 ≤ c.val ∧ c.val ≤ 90) ||
      decide (97 ≤ c.val) && decide (c.val ≤ 122)) := rfl
  simp only [isNameStart, letter, Bool.or_eq_true, Bool.and_eq_true, decide_eq_true_eq,
    UInt32.le_iff_toNat_le] at start
  rcases start with (⟨lower, upper⟩ | ⟨lower, upper⟩) | rfl
  · exact ⟨lower, Nat.le_trans upper (by decide)⟩
  · exact ⟨Nat.le_trans (by decide) lower, upper⟩
  · decide

theorem isBlank_of_isNameStart {c : Char} (start : isNameStart c = true) :
    Text.isBlank c = false := by
  have range := range_of_isNameStart start
  exact isBlank_of_visible (by omega) (by omega)

theorem isBlank_of_isDigit {c : Char} (digit : c.isDigit = true) : Text.isBlank c = false := by
  simp only [Char.isDigit, Bool.and_eq_true, decide_eq_true_eq, ge_iff_le,
    UInt32.le_iff_toNat_le] at digit
  have lower : 48 ≤ c.toNat := digit.1
  have upper : c.toNat ≤ 57 := digit.2
  exact isBlank_of_visible (by omega) (by omega)

theorem isDigit_of_isNameStart {c : Char} (start : isNameStart c = true) : c.isDigit = false := by
  have lower : 65 ≤ c.toNat := (range_of_isNameStart start).1
  simp only [Char.isDigit, Bool.and_eq_false_iff, decide_eq_false_iff_not, ge_iff_le,
    UInt32.le_iff_toNat_le]
  exact Or.inr (Nat.not_le_of_lt (Nat.lt_of_lt_of_le (by decide) lower))

theorem isNameChar_of_isNumberChar {c : Char} (number : isNumberChar c = true) :
    isNameChar c = true := by
  simp only [isNumberChar, Bool.or_eq_true, decide_eq_true_eq] at number
  rcases number with alphanum | under <;> simp [isNameChar, *]

theorem isNumberChar_of_isDigit {c : Char} (digit : c.isDigit = true) : isNumberChar c = true := by
  simp [isNumberChar, Char.isAlphanum, digit]

theorem isNameChar_of_isDigit {c : Char} (digit : c.isDigit = true) : isNameChar c = true :=
  isNameChar_of_isNumberChar (isNumberChar_of_isDigit digit)

/-- A character that begins no punctuation, name, string or number begins an identifier. -/
theorem punctuation?_of_isNameStart {c : Char} (start : isNameStart c = true) :
    punctuation? c = none := by
  unfold punctuation?
  repeat
    split
    · rename_i equal
      rw [equal] at start
      exact absurd start (by decide)
  rfl

theorem punctuation?_of_isDigit {c : Char} (digit : c.isDigit = true) : punctuation? c = none := by
  unfold punctuation?
  repeat
    split
    · rename_i equal
      rw [equal] at digit
      exact absurd digit (by decide)
  rfl

theorem takeWhile_append_stop {p : Char → Bool} {run rest : List Char}
    (all : ∀ c ∈ run, p c = true) (stop : ∀ c, rest.head? = some c → p c = false) :
    (run ++ rest).takeWhile p = run := by
  rw [List.takeWhile_append_of_pos all]
  cases rest with
  | nil => simp
  | cons c more => simp [stop c rfl]

theorem mem_takeWhile {p : Char → Bool} {text : List Char} {c : Char}
    (mem : c ∈ text.takeWhile p) : p c = true := by
  have all := List.all_takeWhile (l := text) (p := p)
  exact List.all_eq_true.mp all c mem

/-- A closed group is not changed by what follows it. -/
theorem group_append {depth : Nat} {text taken : List Char} (closed : group depth text = (taken, true))
    (rest : List Char) : group depth (text ++ rest) = (taken, true) := by
  fun_induction group depth text generalizing taken <;> grind [group]

/-- A closed group is closed without the text after it. -/
theorem group_taken {depth : Nat} {text taken : List Char} (closed : group depth text = (taken, true)) :
    group depth taken = (taken, true) := by
  fun_induction group depth text generalizing taken <;> grind [group]

theorem not_mem_of_group {depth : Nat} {text taken : List Char} {closed : Bool}
    (grouped : group depth text = (taken, closed)) : '\n' ∉ taken := by
  fun_induction group depth text generalizing taken <;> grind

end Lexer

open Lexer

structure IsName (text : List Char) : Prop where
  nonempty : text ≠ []
  chars : ∀ c ∈ text, isNameChar c = true

/-- Nothing, or a bracketed group that closes at its last character. -/
def IsParams (text : List Char) : Prop :=
  text = [] ∨ text.head? = some '<' ∧ group 0 text = (text, true)

/-- An identifier: a name, and parameters after it or not. -/
def IsWord (text : List Char) : Prop :=
  ∃ c name params, text = c :: (name ++ params) ∧ isNameStart c = true ∧
    (∀ d ∈ name, isNameChar d = true) ∧ IsParams params

/-- The tokens that can be written. -/
def Token.Proper : Token → Prop
  | .ident word => IsWord word.toList
  | .symbol name => IsName name.toList
  | .value name => IsName name.toList
  | .int n => n < wordLimit
  | .str inner => ∀ c ∈ inner.toList, c ≠ '"' ∧ c ≠ '\n'
  | _ => True

/-- Is the token a single character that ends any token before it? -/
def Token.isMark : Token → Bool
  | .equals | .comma | .colon | .lparen | .rparen | .lbrace | .rbrace => true
  | _ => false

/-- No name, number or identifier goes on into this text. -/
def Stops (rest : List Char) : Prop :=
  ∀ c, rest.head? = some c → isNameChar c = false ∧ c ≠ '<'

theorem parameters_append {params rest : List Char} (proper : IsParams params)
    (stops : params = [] → Stops rest) : parameters (params ++ rest) = (params, true) := by
  rcases proper with rfl | ⟨opening, closed⟩
  · cases rest with
    | nil => rfl
    | cons c more =>
      have other := (stops rfl c rfl).2
      simp [parameters, other]
  · cases params with
    | nil => cases opening
    | cons c more =>
      cases opening
      exact group_append closed rest

theorem isParams_of_parameters {rest params : List Char}
    (read : parameters rest = (params, true)) : IsParams params := by
  unfold parameters at read
  split at read
  · rename_i more
    have closed := group_taken read
    refine Or.inr ⟨?_, closed⟩
    simp only [group, Char.reduceEq, ↓reduceIte, Bool.false_and, Bool.false_eq_true,
      decide_false] at read
    have first : '<' :: (group (0 + 1) more).1 = params := congrArg Prod.fst read
    rw [← first]
    rfl
  · cases read
    exact Or.inl rfl

theorem nameLexeme_append {line : Nat} {mark : Char} {token : String → Token} {name : String}
    {rest : List Char} (proper : IsName name.toList)
    (stops : ∀ c, rest.head? = some c → isNameChar c = false) :
    nameLexeme line mark token (name.toList ++ rest) =
      .ok (.token (token name) name.toList.length) := by
  have run : (name.toList ++ rest).takeWhile isNameChar = name.toList :=
    takeWhile_append_stop proper.chars stops
  have filled : name.toList.isEmpty = false := by
    simpa [List.isEmpty_eq_false_iff] using proper.nonempty
  unfold nameLexeme
  simp only [run, filled, Bool.false_eq_true, ↓reduceIte, String.ofList_toList]

theorem stringLexeme_append {line : Nat} {inner : String} {rest : List Char}
    (clean : ∀ c ∈ inner.toList, c ≠ '"' ∧ c ≠ '\n') :
    stringLexeme line (inner.toList ++ '"' :: rest) =
      .ok (.token (.str inner) (inner.toList.length + 1)) := by
  have run : (inner.toList ++ '"' :: rest).takeWhile (fun c => c ≠ '"' && c ≠ '\n') =
      inner.toList := by
    apply takeWhile_append_stop
    · intro c mem
      simp [clean c mem]
    · intro c head
      cases head
      decide
  unfold stringLexeme
  simp only [run, List.drop_left, String.ofList_toList]

theorem numberLexeme_append {line n : Nat} {c : Char} {tail rest : List Char}
    (digits : Nat.toDigits 10 n = c :: tail) (fits : n < wordLimit) (stops : Stops rest) :
    numberLexeme line c (tail ++ rest) = .ok (.token (.int n) tail.length) := by
  have run : (tail ++ rest).takeWhile isNumberChar = tail := by
    apply takeWhile_append_stop
    · intro d mem
      have inside : d ∈ Nat.toDigits 10 n := by simp [digits, mem]
      exact isNumberChar_of_isDigit (Numeral.isDigit_of_mem_toDigits inside)
    · intro d head
      have other := (stops d head).1
      by_cases number : isNumberChar d = true
      · rw [isNameChar_of_isNumberChar number] at other
        cases other
      · simpa using number
  unfold numberLexeme
  simp only [run, ← digits, Numeral.readLiteral_toDigits fits]

theorem identLexeme_append {line : Nat} {c : Char} {name params rest : List Char}
    (chars : ∀ d ∈ name, isNameChar d = true) (proper : IsParams params)
    (stops : params = [] → Stops rest) :
    identLexeme line c (name ++ params ++ rest) =
      .ok (.token (.ident (String.ofList (c :: (name ++ params)))) (name ++ params).length) := by
  have run : (name ++ (params ++ rest)).takeWhile isNameChar = name := by
    apply takeWhile_append_stop chars
    intro d head
    rcases proper with rfl | ⟨opening, -⟩
    · exact (stops rfl d head).1
    · cases params with
      | nil => cases opening
      | cons e more =>
        cases opening
        cases head
        decide
  unfold identLexeme
  rw [List.append_assoc]
  simp only [run, List.drop_left, parameters_append proper stops, ↓reduceIte, List.length_append,
    List.cons_append]

theorem lexeme_of_isNameStart (line : Nat) {c : Char} (start : isNameStart c = true)
    (rest : List Char) : lexeme line c rest = identLexeme line c rest := by
  have slash : c ≠ '/' := by rintro rfl; exact absurd start (by decide)
  have at_ : c ≠ '@' := by rintro rfl; exact absurd start (by decide)
  have percent : c ≠ '%' := by rintro rfl; exact absurd start (by decide)
  have quote : c ≠ '"' := by rintro rfl; exact absurd start (by decide)
  simp only [lexeme, isBlank_of_isNameStart start, punctuation?_of_isNameStart start, slash, at_,
    percent, quote, isDigit_of_isNameStart start, start, decide_false, Bool.false_and,
    Bool.false_eq_true, ↓reduceIte]

theorem lexeme_of_isDigit (line : Nat) {c : Char} (digit : c.isDigit = true) (rest : List Char) :
    lexeme line c rest = numberLexeme line c rest := by
  have slash : c ≠ '/' := by rintro rfl; exact absurd digit (by decide)
  have at_ : c ≠ '@' := by rintro rfl; exact absurd digit (by decide)
  have percent : c ≠ '%' := by rintro rfl; exact absurd digit (by decide)
  have quote : c ≠ '"' := by rintro rfl; exact absurd digit (by decide)
  simp only [lexeme, isBlank_of_isDigit digit, punctuation?_of_isDigit digit, slash, at_, percent,
    quote, digit, decide_false, Bool.false_and, Bool.false_eq_true, ↓reduceIte]

/-- A proper token is read back from its text, unless it might go on in the text after it. -/
theorem lexeme_text (line : Nat) {t : Token} (proper : t.Proper) {c : Char} {tail rest : List Char}
    (written : t.text.toList = c :: tail) (ends : t.isMark = true ∨ Stops rest) :
    lexeme line c (tail ++ rest) = .ok (.token t tail.length) := by
  have stops : t.isMark = false → Stops rest := by
    intro plain
    rcases ends with mark | stops
    · rw [plain] at mark
      cases mark
    · exact stops
  cases t with
  | ident word =>
    obtain ⟨d, name, params, shape, start, chars, group⟩ := proper
    have same : d :: (name ++ params) = c :: tail := shape.symm.trans written
    cases same
    have word_eq : word = String.ofList (c :: (name ++ params)) := by
      rw [← shape, String.ofList_toList]
    rw [lexeme_of_isNameStart line start, identLexeme_append chars group fun _ => stops rfl, word_eq]
  | symbol name =>
    have shape : '@' :: name.toList = c :: tail := by simpa [Token.text] using written
    cases shape
    exact nameLexeme_append proper fun d head => (stops rfl d head).1
  | value name =>
    have shape : '%' :: name.toList = c :: tail := by simpa [Token.text] using written
    cases shape
    exact nameLexeme_append proper fun d head => (stops rfl d head).1
  | int n =>
    have shape : Nat.toDigits 10 n = c :: tail := by simpa [Token.text] using written
    have digit : c.isDigit = true := Numeral.isDigit_of_mem_toDigits (n := n) (by simp [shape])
    rw [lexeme_of_isDigit line digit, numberLexeme_append shape proper (stops rfl)]
  | str inner =>
    have shape : '"' :: (inner.toList ++ ['"']) = c :: tail := by
      simpa [Token.text] using written
    cases shape
    have read : lexeme line '"' (inner.toList ++ '"' :: rest) =
        .ok (.token (.str inner) (inner.toList.length + 1)) := stringLexeme_append proper
    simpa using read
  | equals => cases written; rfl
  | comma => cases written; rfl
  | colon => cases written; rfl
  | lparen => cases written; rfl
  | rparen => cases written; rfl
  | lbrace => cases written; rfl
  | rbrace => cases written; rfl

theorem proper_of_punctuation? {c : Char} {t : Token} (read : punctuation? c = some t) :
    t.Proper := by
  unfold punctuation? at read
  repeat
    split at read
    · cases read
      trivial
  cases read

theorem proper_of_nameLexeme {line length : Nat} {mark : Char} (make : String → Token)
    {rest : List Char} {t : Token} (makes : ∀ name, IsName name.toList → (make name).Proper)
    (read : nameLexeme line mark make rest = .ok (.token t length)) : t.Proper := by
  simp only [nameLexeme] at read
  split at read
  · cases read
  · rename_i filled
    cases read
    apply makes
    rw [String.toList_ofList]
    exact ⟨by simpa using filled, fun c => mem_takeWhile⟩

theorem proper_of_stringLexeme {line length : Nat} {rest : List Char} {t : Token}
    (read : stringLexeme line rest = .ok (.token t length)) : t.Proper := by
  simp only [stringLexeme] at read
  split at read
  · cases read
    intro c mem
    rw [String.toList_ofList] at mem
    simpa using mem_takeWhile mem
  · cases read
  · cases read

theorem proper_of_numberLexeme {line length : Nat} {c : Char} {rest : List Char} {t : Token}
    (read : numberLexeme line c rest = .ok (.token t length)) : t.Proper := by
  simp only [numberLexeme] at read
  split at read
  · rename_i literal
    cases read
    exact Numeral.readLiteral_lt (by decide) literal
  · cases read

theorem proper_of_identLexeme {line length : Nat} {c : Char} {rest : List Char} {t : Token}
    (start : isNameStart c = true) (read : identLexeme line c rest = .ok (.token t length)) :
    t.Proper := by
  unfold identLexeme at read
  cases params : parameters (rest.drop (rest.takeWhile isNameChar).length) with
  | mk inside closed =>
    simp only [params] at read
    split at read
    · rename_i isClosed
      cases read
      refine ⟨c, rest.takeWhile isNameChar, inside, ?_, start, fun d => mem_takeWhile, ?_⟩
      · simp
      · rw [isClosed] at params
        exact isParams_of_parameters params
    · cases read

theorem proper_of_lexeme {line length : Nat} {c : Char} {rest : List Char} {t : Token}
    (read : lexeme line c rest = .ok (.token t length)) : t.Proper := by
  unfold lexeme at read
  split at read
  · cases read
  split at read
  · cases read
  split at read
  · rename_i found
    cases read
    exact proper_of_punctuation? found
  split at read
  · exact proper_of_nameLexeme .symbol (fun name proper => proper) read
  split at read
  · exact proper_of_nameLexeme .value (fun name proper => proper) read
  split at read
  · exact proper_of_stringLexeme read
  split at read
  · exact proper_of_numberLexeme read
  split at read
  · rename_i start
    exact proper_of_identLexeme start read
  · cases read

theorem proper_of_tokensFrom {skip : Nat} {pos : Pos} {text : List Char} {ts : List PlacedToken}
    (read : tokensFrom skip pos text = .ok ts) : ∀ t ∈ ts, t.token.Proper := by
  fun_induction tokensFrom skip pos text generalizing ts with
  | case1 =>
    cases read
    simp
  | case2 skip pos c rest ih => exact ih read
  | case3 => cases read
  | case4 pos c rest length found ih => exact ih read
  | case5 => cases read
  | case6 pos c rest token length found tokens later ih =>
    cases read
    intro t mem
    rcases List.mem_cons.mp mem with rfl | inside
    · exact proper_of_lexeme found
    · exact ih later t inside

/-- Every token of a text is proper. -/
theorem proper_of_tokens {text : String} {ts : List PlacedToken}
    (read : Lexer.tokens text = .ok ts) : ∀ t ∈ ts, t.token.Proper :=
  proper_of_tokensFrom read

end RngLowering
