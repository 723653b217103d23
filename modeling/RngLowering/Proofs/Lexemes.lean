import RngLowering.Proofs.JoinedTokens

set_option autoImplicit false

namespace RngLowering

open Lexer

/-- What may stand before a token: blanks, and comments with the end of their line. -/
inductive Gap : List Char → Prop
  | nil : Gap []
  | blank {c : Char} {rest : List Char} (isBlank : Text.isBlank c = true) (later : Gap rest) :
      Gap (c :: rest)
  | comment {inner rest : List Char} (oneLine : '\n' ∉ inner) (later : Gap rest) :
      Gap ('/' :: '/' :: (inner ++ '\n' :: rest))

/-- What may stand after the last token: the last comment may lack the end of its line. -/
inductive LastGap : List Char → Prop
  | gap {text : List Char} (isGap : Gap text) : LastGap text
  | comment {gap inner : List Char} (isGap : Gap gap) (oneLine : '\n' ∉ inner) :
      LastGap (gap ++ '/' :: '/' :: inner)

theorem Gap.append {first second : List Char} (left : Gap first) (right : Gap second) :
    Gap (first ++ second) := by
  induction left with
  | nil => exact right
  | blank isBlank _ ih => exact .blank isBlank ih
  | comment oneLine _ ih =>
    rw [List.cons_append, List.cons_append, List.append_assoc, List.cons_append]
    exact .comment oneLine ih

theorem Gap.append_last {gap rest : List Char} (isGap : Gap gap) (last : LastGap rest) :
    LastGap (gap ++ rest) := by
  cases last with
  | gap more => exact .gap (isGap.append more)
  | comment more oneLine =>
    rw [← List.append_assoc]
    exact .comment (isGap.append more) oneLine

def IsNumberWord (word : List Char) : Prop :=
  ∃ c rest, word = c :: rest ∧ c.isDigit = true ∧ ∀ d ∈ rest, isNumberChar d = true

/-- The characters are a way to write the token. Only a number has more than one. -/
def Token.Spelled (t : Token) (word : List Char) : Prop :=
  match t with
  | .int n => IsNumberWord word ∧ Numeral.readLiteral wordLimit word = .ok n
  | t => t.Regular ∧ word = t.text.toList

/-- The token does not go on in the text after it. -/
def Token.EndsBefore (t : Token) (rest : List Char) : Prop :=
  ∀ c, rest.head? = some c →
    match t with
    | .ident word => (∀ d ∈ word.toList, isNameChar d = true) → isNameChar c = false ∧ c ≠ '<'
    | .symbol _ => isNameChar c = false
    | .value _ => isNameChar c = false
    | .int _ => isNumberChar c = false
    | _ => True

/-- The text begins with a string that its line does not end. -/
def CutString (text : List Char) : Prop :=
  ∃ inner rest, text = '"' :: (inner ++ '\n' :: rest) ∧ '"' ∉ inner ∧ '\n' ∉ inner

/-- The line reported for a broken word that stands on the given line. -/
def FaultLine (line : Nat) (text : List Char) (reported : Nat) : Prop :=
  ¬ CutString text ∧ reported = line ∨ CutString text ∧ reported = line + 1

def AtLineEnd (text : List Char) : Prop := text = [] ∨ text.head? = some '\n'

/-- The word with which a text begins is none of a token, for the given reason. -/
inductive Broken : LexFault → List Char → Prop
  | emptyName {mark : Char} {rest : List Char} (isMark : mark = '@' ∨ mark = '%')
      (stops : ∀ c, rest.head? = some c → isNameChar c = false) :
      Broken (.emptyName mark) (mark :: rest)
  | unclosedString {inner rest : List Char} (noQuote : '"' ∉ inner) (oneLine : '\n' ∉ inner)
      (ends : AtLineEnd rest) : Broken .unclosedString ('"' :: (inner ++ rest))
  | badInteger {word rest : List Char} (isNumber : IsNumberWord word)
      (stops : ∀ c, rest.head? = some c → isNumberChar c = false)
      (unread : ∀ n, Numeral.readLiteral wordLimit word ≠ .ok n) :
      Broken (.badInteger (String.ofList word)) (word ++ rest)
  | unclosedType {c : Char} {name params rest : List Char} (start : isNameStart c = true)
      (chars : ∀ d ∈ name, isNameChar d = true) (opens : params.head? = some '<')
      (oneLine : '\n' ∉ params) (unclosed : ∀ part, part <+: params → ¬ IsGroup part)
      (ends : AtLineEnd rest) :
      Broken (.unclosedType (String.ofList (c :: (name ++ params)))) (c :: (name ++ params ++ rest))
  | strayChar {c : Char} {rest : List Char} (visible : Text.isBlank c = false)
      (noComment : ¬ (c = '/' ∧ rest.head? = some '/'))
      (noToken : ∀ t tail, ¬ Token.Spelled t (c :: tail)) : Broken (.strayChar c) (c :: rest)

theorem FaultLine.unique {line first second : Nat} {text : List Char}
    (left : FaultLine line text first) (right : FaultLine line text second) : first = second := by
  rcases left with ⟨whole, rfl⟩ | ⟨cut, rfl⟩ <;> rcases right with ⟨whole', rfl⟩ | ⟨cut', rfl⟩
  · rfl
  · exact absurd cut' whole
  · exact absurd cut whole'
  · rfl

theorem Broken.ne_nil {fault : LexFault} {text : List Char} (broken : Broken fault text) :
    text ≠ [] := by
  rintro rfl
  generalize none : ([] : List Char) = text at broken
  cases broken with
  | badInteger isNumber _ _ =>
    obtain ⟨c, tail, rfl, -⟩ := isNumber
    cases none
  | _ => cases none

theorem Token.Spelled.ne_nil {t : Token} {word : List Char} (spelled : t.Spelled word) :
    word ≠ [] := by
  cases t with
  | int n =>
    obtain ⟨c, tail, rfl, -⟩ := spelled.1
    simp
  | _ =>
    rw [spelled.2]
    exact Token.text_ne_nil (Token.proper_iff_regular.mpr spelled.1)

/-- What is found at a character of a line: a gap, the word of a token, or a word that is broken. -/
def Begins (line : Nat) (c : Char) (rest : List Char) : Except LexError Lexeme → Prop
  | .ok (.trivia length) =>
    (∃ tail more, rest = tail ++ more ∧ Gap (c :: tail) ∧ length = tail.length) ∨
      LastGap (c :: rest) ∧ rest.length ≤ length
  | .ok (.token t length) => ∃ tail more, rest = tail ++ more ∧ t.Spelled (c :: tail) ∧
      t.EndsBefore more ∧ length = tail.length
  | .error reason => Broken reason.fault (c :: rest) ∧ FaultLine line (c :: rest) reason.line

theorem exists_takeWhile_append (p : Char → Bool) (text : List Char) :
    ∃ run rest, text = run ++ rest ∧ text.takeWhile p = run ∧ (∀ c ∈ run, p c = true) ∧
      ∀ c, rest.head? = some c → p c = false := by
  refine ⟨text.takeWhile p, text.dropWhile p, List.takeWhile_append_dropWhile.symm, rfl,
    fun c => mem_takeWhile, ?_⟩
  intro c head
  have stops := List.head?_dropWhile_not p text
  rw [head] at stops
  exact stops

theorem not_cutString {c : Char} (other : c ≠ '"') (rest : List Char) : ¬ CutString (c :: rest) := by
  rintro ⟨inner, more, shape, -⟩
  exact other (List.cons.inj shape).1

theorem AtLineEnd.stops {text : List Char} (ends : AtLineEnd text) {c : Char}
    (head : text.head? = some c) : c = '\n' := by
  rcases ends with rfl | newline
  · cases head
  · rw [newline] at head
    exact (Option.some.inj head).symm

theorem commentLength_append {inner rest : List Char} (oneLine : '\n' ∉ inner)
    (ends : AtLineEnd rest) : commentLength ('/' :: (inner ++ rest)) = inner.length + 2 := by
  have run : ('/' :: inner ++ rest).takeWhile (· ≠ '\n') = '/' :: inner := by
    apply takeWhile_append_stop
    · intro c mem
      have newline : c ≠ '\n' := by
        rintro rfl
        simp [oneLine] at mem
      simp [newline]
    · intro c head
      simp [ends.stops head]
  rw [commentLength, ← List.cons_append, run, List.length_cons]

theorem begins_comment (line : Nat) (rest : List Char) :
    Begins line '/' ('/' :: rest) (.ok (.trivia (commentLength ('/' :: rest)))) := by
  obtain ⟨inner, after, rfl, -, clean, stops⟩ := exists_takeWhile_append (· ≠ '\n') rest
  have oneLine : '\n' ∉ inner := fun mem => by simpa using clean _ mem
  cases after with
  | nil =>
    refine .inr ⟨?_, ?_⟩
    · rw [List.append_nil]
      exact .comment .nil oneLine
    · rw [commentLength_append oneLine (.inl rfl)]
      simp
  | cons newline more =>
    have isNewline : newline = '\n' := by simpa using stops newline rfl
    subst isNewline
    refine .inl ⟨'/' :: (inner ++ ['\n']), more, by simp, .comment oneLine .nil, ?_⟩
    rw [commentLength_append oneLine (.inr rfl)]
    simp

theorem begins_name {line : Nat} {mark : Char} {make : String → Token} {rest : List Char}
    (isMark : mark = '@' ∧ make = .symbol ∨ mark = '%' ∧ make = .value) :
    Begins line mark rest (nameLexeme line mark make rest) := by
  obtain ⟨name, more, rfl, run, chars, stops⟩ := exists_takeWhile_append isNameChar rest
  simp only [nameLexeme, run]
  split
  · rename_i empty
    rw [List.isEmpty_iff.mp empty]
    rcases isMark with ⟨rfl, -⟩ | ⟨rfl, -⟩
    · exact ⟨.emptyName (.inl rfl) stops, .inl ⟨not_cutString (by decide) _, rfl⟩⟩
    · exact ⟨.emptyName (.inr rfl) stops, .inl ⟨not_cutString (by decide) _, rfl⟩⟩
  · rename_i filled
    have regular : (String.ofList name).toList ≠ [] ∧
        ∀ c ∈ (String.ofList name).toList, isNameChar c = true := by
      rw [String.toList_ofList]
      exact ⟨by simpa using filled, chars⟩
    rcases isMark with ⟨rfl, rfl⟩ | ⟨rfl, rfl⟩
    · exact ⟨name, more, rfl, ⟨regular, by simp [Token.text]⟩, stops, rfl⟩
    · exact ⟨name, more, rfl, ⟨regular, by simp [Token.text]⟩, stops, rfl⟩

theorem begins_string (line : Nat) (rest : List Char) :
    Begins line '"' rest (stringLexeme line rest) := by
  obtain ⟨inner, more, rfl, run, clean, stops⟩ :=
    exists_takeWhile_append (fun c => c ≠ '"' && c ≠ '\n') rest
  have noQuote : '"' ∉ inner := fun mem => by simpa using clean _ mem
  have oneLine : '\n' ∉ inner := fun mem => by simpa using clean _ mem
  simp only [stringLexeme, run, List.drop_left]
  cases more with
  | nil =>
    refine ⟨.unclosedString noQuote oneLine (.inl rfl), .inl ⟨?_, rfl⟩⟩
    rintro ⟨before, after, shape, -⟩
    rw [List.append_nil] at shape
    rw [(List.cons.inj shape).2] at oneLine
    exact oneLine (by simp)
  | cons c after =>
    have stop := stops c rfl
    by_cases quote : c = '"'
    · subst quote
      refine ⟨inner ++ ['"'], after, by simp, ⟨?_, by simp [Token.text]⟩, fun _ _ => trivial,
        by simp⟩
      rw [Token.Regular, String.toList_ofList]
      exact ⟨noQuote, oneLine⟩
    · have newline : c = '\n' := by simpa [quote] using stop
      subst newline
      exact ⟨.unclosedString noQuote oneLine (.inr rfl),
        .inr ⟨⟨inner, after, rfl, noQuote, oneLine⟩, rfl⟩⟩

theorem begins_number {line : Nat} {c : Char} (digit : c.isDigit = true) (rest : List Char) :
    Begins line c rest (numberLexeme line c rest) := by
  obtain ⟨tail, more, rfl, run, chars, stops⟩ := exists_takeWhile_append isNumberChar rest
  have isNumber : IsNumberWord (c :: tail) := ⟨c, tail, rfl, digit, chars⟩
  simp only [numberLexeme, run]
  split
  · rename_i n read
    exact ⟨tail, more, rfl, ⟨isNumber, read⟩, stops, rfl⟩
  · rename_i fault read
    have noQuote : c ≠ '"' := by
      rintro rfl
      exact absurd digit (by decide)
    refine ⟨.badInteger isNumber stops fun n same => ?_, .inl ⟨not_cutString noQuote _, rfl⟩⟩
    rw [read] at same
    cases same

/-- A group ends at its last bracket, or where its line ends. -/
theorem Lexer.group_split {depth : Nat} {text taken : List Char} {closed : Bool}
    (grouped : group depth text = (taken, closed)) :
    ∃ rest, text = taken ++ rest ∧ (closed = false → AtLineEnd rest) := by
  fun_induction group depth text generalizing taken closed with
  | case1 depth =>
    cases grouped
    exact ⟨[], rfl, fun _ => .inl rfl⟩
  | case2 depth rest =>
    cases grouped
    exact ⟨'\n' :: rest, rfl, fun _ => .inr rfl⟩
  | case3 depth c rest _ closing =>
    cases grouped
    exact ⟨rest, rfl, fun open_ => by cases open_⟩
  | case4 depth c rest _ _ _ _ _ inner =>
    rename_i ih
    cases grouped
    obtain ⟨more, rfl, ends⟩ := ih inner
    exact ⟨more, rfl, ends⟩

theorem head?_of_group {text taken : List Char} {closed : Bool} (opens : text.head? = some '<')
    (grouped : group 0 text = (taken, closed)) : taken.head? = some '<' := by
  obtain ⟨inner, rfl⟩ := List.head?_eq_some_iff.mp opens
  rw [group_open] at grouped
  rw [← (Prod.mk.inj grouped).1]
  rfl

/-- In a group that does not close, no group at its beginning does. -/
theorem not_isGroup_of_group {text taken part : List Char} (grouped : group 0 text = (taken, false))
    (front : part <+: taken) : ¬ IsGroup part := by
  intro isGroup
  obtain ⟨more, rfl, -⟩ := group_split grouped
  obtain ⟨tail, rfl⟩ := front
  rcases isParams_iff.mpr (.inr isGroup) with rfl | ⟨-, closed⟩
  · obtain ⟨_, -, shape⟩ := isGroup
    cases shape
  · rw [List.append_assoc, group_append closed] at grouped
    exact absurd (Prod.mk.inj grouped).2 (by decide)

theorem begins_ident {line : Nat} {c : Char} (start : isNameStart c = true) (rest : List Char) :
    Begins line c rest (identLexeme line c rest) := by
  have noQuote : c ≠ '"' := by
    rintro rfl
    exact absurd start (by decide)
  obtain ⟨name, after, rfl, run, chars, stops⟩ := exists_takeWhile_append isNameChar rest
  simp only [identLexeme, run, List.drop_left]
  by_cases opens : after.head? = some '<'
  · obtain ⟨inner, rfl⟩ := List.head?_eq_some_iff.mp opens
    simp only [parameters]
    cases grouped : group 0 ('<' :: inner) with
    | mk params closed =>
      obtain ⟨more, split, ends⟩ := group_split grouped
      have first := head?_of_group rfl grouped
      cases closed with
      | true =>
        refine ⟨name ++ params, more, by simp [split], ⟨⟨c, name, params, by simp, start, chars, ?_⟩,
          by simp [Token.text]⟩, ?_, by simp⟩
        · exact isParams_iff.mp (.inr ⟨first, group_taken grouped⟩)
        · -- a name with parameters goes on in nothing
          intro d _ all
          have inside : '<' ∈ params := List.mem_of_mem_head? first
          exact absurd (all '<' (by simp [inside])) (by decide)
      | false =>
        rw [split, ← List.append_assoc]
        exact ⟨.unclosedType start chars first (not_mem_of_group grouped)
          (fun part front => not_isGroup_of_group grouped front) (ends rfl),
          .inl ⟨not_cutString noQuote _, rfl⟩⟩
  · have nothing : parameters after = ([], true) := by
      unfold parameters
      split
      · exact absurd rfl opens
      · rfl
    simp only [nothing, ↓reduceIte, List.append_nil, List.length_nil, Nat.add_zero]
    refine ⟨name, after, rfl, ⟨⟨c, name, [], by simp, start, chars, .inl rfl⟩, by simp [Token.text]⟩,
      ?_, rfl⟩
    intro d head _
    refine ⟨stops d head, ?_⟩
    rintro rfl
    exact opens head

theorem begins_punctuation {line : Nat} {c : Char} {t : Token} (found : punctuation? c = some t)
    (rest : List Char) : Begins line c rest (.ok (.token t 0)) := by
  refine ⟨[], rest, rfl, ?_, ?_, rfl⟩
  · unfold punctuation? at found
    repeat
      split at found
      · rename_i same
        cases found
        rw [same]
        exact ⟨trivial, rfl⟩
    cases found
  · unfold punctuation? at found
    repeat
      split at found
      · cases found
        exact fun _ _ => trivial
    cases found

def StartsToken (c : Char) : Prop :=
  (punctuation? c).isSome = true ∨ c = '@' ∨ c = '%' ∨ c = '"' ∨ c.isDigit = true ∨
    isNameStart c = true

theorem Token.Spelled.startsToken {t : Token} {c : Char} {tail : List Char}
    (spelled : t.Spelled (c :: tail)) : StartsToken c := by
  unfold StartsToken
  cases t with
  | ident word =>
    obtain ⟨⟨d, name, params, shape, start, -⟩, same⟩ := spelled
    have heads : c :: tail = d :: (name ++ params) := same.trans shape
    cases heads
    simp [start]
  | symbol name =>
    have shape : c :: tail = '@' :: name.toList := by simpa [Token.text] using spelled.2
    cases shape
    simp
  | value name =>
    have shape : c :: tail = '%' :: name.toList := by simpa [Token.text] using spelled.2
    cases shape
    simp
  | int n =>
    obtain ⟨d, rest, shape, digit, -⟩ := spelled.1
    cases shape
    simp [digit]
  | str inner =>
    have shape : c :: tail = '"' :: (inner.toList ++ ['"']) := by
      simpa [Token.text] using spelled.2
    cases shape
    simp
  | _ =>
    cases spelled.2
    exact .inl rfl

theorem StartsToken.exists_spelled {c : Char} (starts : StartsToken c) :
    ∃ t tail, Token.Spelled t (c :: tail) := by
  rcases starts with mark | rfl | rfl | rfl | digit | start
  · obtain ⟨t, found⟩ := Option.isSome_iff_exists.mp mark
    obtain ⟨tail, -, -, spelled, -⟩ := @begins_punctuation 1 c t found []
    exact ⟨t, tail, spelled⟩
  · exact ⟨.symbol "a", ['a'], by simp [Token.Regular]; decide, rfl⟩
  · exact ⟨.value "a", ['a'], by simp [Token.Regular]; decide, rfl⟩
  · exact ⟨.str "", ['"'], by simp [Token.Regular], rfl⟩
  · have all : ∀ d ∈ [c], d.isDigit = true := by simpa using digit
    have small : Nat.ofDigitChars 10 [c] 0 < wordLimit := by
      have upper : c.toNat ≤ 57 := by
        simp only [Char.isDigit, Bool.and_eq_true, decide_eq_true_eq] at digit
        exact digit.2
      have value : Nat.ofDigitChars 10 [c] 0 = c.toNat - 48 := by simp [Nat.ofDigitChars]
      have limit : 10 < wordLimit := by decide
      omega
    have plain : c ≠ '+' := by
      rintro rfl
      exact absurd digit (by decide)
    refine ⟨.int (Nat.ofDigitChars 10 [c] 0), [], ⟨c, [], rfl, digit, by simp⟩, ?_⟩
    rw [Numeral.readLiteral_of_digits all, Numeral.readUnsigned_cons plain,
      Numeral.readDigits_eq_ofDigitChars all small]
  · exact ⟨.ident (String.ofList [c]), [], ⟨c, [], [], by simp, start, by simp, .inl rfl⟩,
      by simp [Token.text]⟩

/-- What is found at a character is there. -/
theorem lexeme_begins (line : Nat) (c : Char) (rest : List Char) :
    Begins line c rest (lexeme line c rest) := by
  unfold lexeme
  split
  · rename_i blank
    exact .inl ⟨[], rest, rfl, .blank blank .nil, rfl⟩
  rename_i visible
  split
  · rename_i comment
    simp only [Bool.and_eq_true, decide_eq_true_eq] at comment
    obtain ⟨rfl, slash⟩ := comment
    obtain ⟨more, rfl⟩ := List.head?_eq_some_iff.mp slash
    exact begins_comment line more
  rename_i noComment
  split
  · rename_i t found
    exact begins_punctuation found rest
  rename_i noPunctuation
  split
  · rename_i isAt
    subst isAt
    exact begins_name (.inl ⟨rfl, rfl⟩)
  rename_i noAt
  split
  · rename_i isPercent
    subst isPercent
    exact begins_name (.inr ⟨rfl, rfl⟩)
  rename_i noPercent
  split
  · rename_i isQuote
    subst isQuote
    exact begins_string line rest
  rename_i noQuote
  split
  · rename_i digit
    exact begins_number digit rest
  rename_i noDigit
  split
  · rename_i start
    exact begins_ident start rest
  rename_i noStart
  refine ⟨.strayChar (by simpa using visible) ?_ ?_, .inl ⟨not_cutString noQuote rest, rfl⟩⟩
  · simpa using noComment
  · intro t tail spelled
    rcases spelled.startsToken with mark | isAt | isPercent | isQuote | digit | start
    · rw [noPunctuation] at mark
      cases mark
    · exact noAt isAt
    · exact noPercent isPercent
    · exact noQuote isQuote
    · exact noDigit digit
    · exact noStart start

theorem lexeme_comment (line : Nat) (rest : List Char) :
    lexeme line '/' ('/' :: rest) = .ok (.trivia (commentLength ('/' :: rest))) := rfl

theorem isNameChar_of_isNameStart {c : Char} (start : isNameStart c = true) :
    isNameChar c = true := by
  simp only [isNameStart, Bool.or_eq_true, decide_eq_true_eq] at start
  rcases start with alpha | under
  · simp [isNameChar, Char.isAlphanum, alpha]
  · simp [isNameChar, under]

/-- The word of a token is found, unless it goes on. -/
theorem lexeme_of_spelled (line : Nat) {t : Token} {c : Char} {tail rest : List Char}
    (spelled : t.Spelled (c :: tail)) (ends : t.EndsBefore rest) :
    lexeme line c (tail ++ rest) = .ok (.token t tail.length) := by
  cases t with
  | ident word =>
    obtain ⟨⟨d, name, params, shape, start, chars, group⟩, same⟩ := spelled
    have heads : c :: tail = d :: (name ++ params) := same.trans shape
    cases heads
    have word_eq : word = String.ofList (c :: (name ++ params)) := by
      rw [← shape, String.ofList_toList]
    rw [lexeme_of_isNameStart line start, word_eq]
    refine identLexeme_append chars (isParams_iff.mpr group) ?_
    rintro rfl d head
    refine ends d head ?_
    rw [shape, List.append_nil]
    simpa [isNameChar_of_isNameStart start] using chars
  | symbol name =>
    have shape : c :: tail = '@' :: name.toList := by simpa [Token.text] using spelled.2
    cases shape
    exact nameLexeme_append ⟨spelled.1.1, spelled.1.2⟩ ends
  | value name =>
    have shape : c :: tail = '%' :: name.toList := by simpa [Token.text] using spelled.2
    cases shape
    exact nameLexeme_append ⟨spelled.1.1, spelled.1.2⟩ ends
  | int n =>
    obtain ⟨⟨d, word, shape, digit, chars⟩, read⟩ := spelled
    cases shape
    have run := takeWhile_append_stop chars ends
    rw [lexeme_of_isDigit line digit]
    simp only [numberLexeme, run, read]
  | str inner =>
    have shape : c :: tail = '"' :: (inner.toList ++ ['"']) := by
      simpa [Token.text] using spelled.2
    cases shape
    have clean : ∀ c ∈ inner.toList, c ≠ '"' ∧ c ≠ '\n' :=
      Token.proper_iff_regular (t := .str inner).mpr spelled.1
    have read : lexeme line '"' (inner.toList ++ '"' :: rest) =
        .ok (.token (.str inner) (inner.toList.length + 1)) := stringLexeme_append clean
    simpa using read
  | equals => cases spelled.2; rfl
  | comma => cases spelled.2; rfl
  | colon => cases spelled.2; rfl
  | lparen => cases spelled.2; rfl
  | rparen => cases spelled.2; rfl
  | lbrace => cases spelled.2; rfl
  | rbrace => cases spelled.2; rfl

/-- What lies on a line is part of all that does. -/
theorem prefix_of_atLineEnd {part line rest more : List Char} (same : part ++ rest = line ++ more)
    (oneLine : '\n' ∉ part) (ends : AtLineEnd more) : part <+: line := by
  rcases List.prefix_or_prefix_of_prefix ⟨rest, same⟩ (List.prefix_append line more) with
    within | ⟨beyond, rfl⟩
  · exact within
  · rw [List.append_assoc] at same
    have after : beyond ++ rest = more := List.append_cancel_left same
    cases beyond with
    | nil => simp
    | cons c tail =>
      rcases ends with rfl | newline
      · cases after
      · rw [← after] at newline
        cases newline
        exact absurd (by simp) oneLine

theorem group_of_unclosed {params rest : List Char} (opens : params.head? = some '<')
    (oneLine : '\n' ∉ params) (unclosed : ∀ part, part <+: params → ¬ IsGroup part)
    (ends : AtLineEnd rest) : group 0 (params ++ rest) = (params, false) := by
  cases grouped : group 0 (params ++ rest) with
  | mk taken closed =>
    obtain ⟨more, split, stops⟩ := group_split grouped
    have within : taken <+: params :=
      prefix_of_atLineEnd split.symm (not_mem_of_group grouped) ends
    cases closed with
    | false =>
      have whole : params <+: taken := prefix_of_atLineEnd split oneLine (stops rfl)
      rw [within.eq_of_length_le whole.length_le]
    | true =>
      have first : taken.head? = some '<' :=
        head?_of_group (by rw [List.head?_append, opens]; rfl) grouped
      rcases isParams_iff.mp (.inr ⟨first, group_taken grouped⟩) with rfl | isGroup
      · cases first
      · exact absurd isGroup (unclosed taken within)

/-- A character with which no token's word begins. -/
theorem lexeme_of_noToken (line : Nat) {c : Char} {rest : List Char}
    (visible : Text.isBlank c = false) (noComment : ¬ (c = '/' ∧ rest.head? = some '/'))
    (noToken : ¬ StartsToken c) : lexeme line c rest = .error ⟨line, .strayChar c⟩ := by
  simp only [StartsToken, not_or] at noToken
  obtain ⟨noMark, noAt, noPercent, noQuote, noDigit, noStart⟩ := noToken
  have unmarked : punctuation? c = none := by simpa using noMark
  have plain : (decide (c = '/') && decide (rest.head? = some '/')) = false := by
    simpa using noComment
  simp only [lexeme, visible, plain, unmarked, noAt, noPercent, noQuote, noDigit, noStart,
    Bool.false_eq_true, ↓reduceIte]

theorem stringLexeme_of_unclosed (line : Nat) {inner rest : List Char} (noQuote : '"' ∉ inner)
    (oneLine : '\n' ∉ inner) (ends : AtLineEnd rest) :
    ∃ l, stringLexeme line (inner ++ rest) = .error ⟨l, .unclosedString⟩ := by
  have run : (inner ++ rest).takeWhile (fun c => c ≠ '"' && c ≠ '\n') = inner := by
    apply takeWhile_append_stop
    · intro c mem
      have quote : c ≠ '"' := fun same => noQuote (same ▸ mem)
      have newline : c ≠ '\n' := fun same => oneLine (same ▸ mem)
      simp [quote, newline]
    · intro c head
      simp [ends.stops head]
  simp only [stringLexeme, run, List.drop_left]
  rcases ends with rfl | newline
  · exact ⟨line, rfl⟩
  · obtain ⟨after, rfl⟩ := List.head?_eq_some_iff.mp newline
    exact ⟨line + 1, rfl⟩

theorem identLexeme_of_unclosed (line : Nat) (c : Char) {name params rest : List Char}
    (chars : ∀ d ∈ name, isNameChar d = true) (opens : params.head? = some '<')
    (oneLine : '\n' ∉ params) (unclosed : ∀ part, part <+: params → ¬ IsGroup part)
    (ends : AtLineEnd rest) :
    identLexeme line c (name ++ params ++ rest) =
      .error ⟨line, .unclosedType (String.ofList (c :: (name ++ params)))⟩ := by
  have grouped := group_of_unclosed opens oneLine unclosed ends
  have read : parameters (params ++ rest) = (params, false) := by
    obtain ⟨inner, rfl⟩ := List.head?_eq_some_iff.mp opens
    exact grouped
  have run : (name ++ (params ++ rest)).takeWhile isNameChar = name := by
    apply takeWhile_append_stop chars
    intro d head
    rw [List.head?_append, opens] at head
    cases head
    decide
  rw [List.append_assoc]
  simp only [identLexeme, run, List.drop_left, read, List.cons_append, Bool.false_eq_true,
    ↓reduceIte]

/-- A broken word is found, and for its reason. -/
theorem lexeme_of_broken (line : Nat) {fault : LexFault} {c : Char} {rest : List Char}
    (broken : Broken fault (c :: rest)) : ∃ l, lexeme line c rest = .error ⟨l, fault⟩ := by
  generalize shape : c :: rest = text at broken
  cases broken with
  | @emptyName mark more isMark stops =>
    cases shape
    have run : ([] ++ rest).takeWhile isNameChar = [] := takeWhile_append_stop (by simp) stops
    rw [List.nil_append] at run
    have failed : ∀ make, nameLexeme line c make rest = .error ⟨line, .emptyName c⟩ := by
      intro make
      simp only [nameLexeme, run, List.isEmpty_nil, ↓reduceIte]
    rcases isMark with rfl | rfl
    · exact ⟨line, failed .symbol⟩
    · exact ⟨line, failed .value⟩
  | unclosedString noQuote oneLine ends =>
    cases shape
    exact stringLexeme_of_unclosed line noQuote oneLine ends
  | @badInteger word more isNumber stops unread =>
    obtain ⟨d, tail, rfl, digit, chars⟩ := isNumber
    rw [List.cons_append] at shape
    obtain ⟨rfl, rfl⟩ := List.cons.inj shape
    have run := takeWhile_append_stop chars stops
    refine ⟨line, ?_⟩
    rw [lexeme_of_isDigit line digit]
    simp only [numberLexeme, run]
    cases read : Numeral.readLiteral wordLimit (c :: tail) with
    | ok n => exact absurd read (unread n)
    | error reason => rfl
  | unclosedType start chars opens oneLine unclosed ends =>
    cases shape
    refine ⟨line, ?_⟩
    rw [lexeme_of_isNameStart line start]
    exact identLexeme_of_unclosed line c chars opens oneLine unclosed ends
  | strayChar visible noComment noToken =>
    cases shape
    refine ⟨line, lexeme_of_noToken line visible noComment fun starts => ?_⟩
    obtain ⟨t, tail, spelled⟩ := starts.exists_spelled
    exact noToken t tail spelled

end RngLowering
