import RngLowering.Outcome
import RngLowering.Program.Edit
import RngLowering.Program.OpForm
import RngLowering.Ty.Reader

/-!
Reading a program from text.

A program is a list of functions and operations, which may be wrapped in `module @name` and braces.
An operation ends with its line: its symbol, first operand, attributes and types count only if they
begin on the line of its name. A list that has begun may go on after a comma on the next line.

Each reader takes a list of tokens and gives what it read with the tokens that are left. The lemmas
after a reader say that these are no more than before, or fewer.
-/

set_option autoImplicit false

namespace RngLowering.Reader

abbrev Tokens := List PlacedToken

/-- What was read, and the tokens left. -/
abbrev Read (α : Type) := Except ReadError (α × Tokens)

/-- The next token, if it is on the given line. -/
def nextOn (line : Nat) : Tokens → Option Token
  | [] => none
  | t :: _ => if t.line = line then some t.token else none

def expect (wanted : Token) : Tokens → Except ReadError Tokens
  | [] => .error .endOfInput
  | t :: rest =>
    if t.token = wanted then .ok rest else .error (.grammar t.line (.expected wanted t.token))

/-- The type that a token stands for. -/
def typeOfToken (t : PlacedToken) : Except ReadError Ty :=
  match t.token with
  | .ident text =>
    match Ty.ofText? text with
    | some ty => .ok ty
    | none => .error (.invalidType t.line text)
  | token => .error (.invalidType t.line token.shown)

theorem expect_length {wanted : Token} {ts rest : Tokens} (read : expect wanted ts = .ok rest) :
    rest.length < ts.length := by
  cases ts with
  | nil => simp [expect] at read
  | cons t more =>
    simp only [expect] at read
    split at read
    · cases read; simp
    · cases read

/-- Names of results, separated by commas. -/
def resultNames : Tokens → Read (List String)
  | [] => .error .endOfInput
  | ⟨.value name, _⟩ :: rest =>
    match rest with
    | ⟨.comma, _⟩ :: more =>
      match resultNames more with
      | .ok (names, left) => .ok (name :: names, left)
      | .error reason => .error reason
    | _ => .ok ([name], rest)
  | t :: _ => .error (.grammar t.line (.expectedValue t.token))

/-- Operands, each of them in scope. The list goes on after a comma on the operation's line. -/
def operandList (scope : List (String × ValueId)) (line : Nat) : Tokens → Read (List ValueId)
  | [] => .error .endOfInput
  | ⟨.value name, _⟩ :: rest =>
    match scope.lookup name with
    | none => .error (.undefinedValue line name)
    | some value =>
      match rest with
      | ⟨.comma, pos⟩ :: more =>
        if pos.line = line then
          match operandList scope line more with
          | .ok (values, left) => .ok (value :: values, left)
          | .error reason => .error reason
        else .ok ([value], rest)
      | _ => .ok ([value], rest)
  | t :: _ => .error (.grammar t.line (.expectedValue t.token))

/-- Types. The list goes on after a comma on the operation's line. -/
def typeList (line : Nat) : Tokens → Read (List Ty)
  | [] => .error .endOfInput
  | t :: rest =>
    match typeOfToken t with
    | .error reason => .error reason
    | .ok ty =>
      match rest with
      | ⟨.comma, pos⟩ :: more =>
        if pos.line = line then
          match typeList line more with
          | .ok (types, left) => .ok (ty :: types, left)
          | .error reason => .error reason
        else .ok ([ty], rest)
      | _ => .ok ([ty], rest)

/-- The value of an attribute after an equals sign. -/
def attrValue (key : String) (t : PlacedToken) : Except ReadError Attr :=
  match t.token with
  | .int value => .ok (.int value)
  | .str text => .ok (.str text)
  | token => .error (.grammar t.line (.badAttrValue key token))

/-- Attributes up to the closing brace, at least one. -/
def attrList : Tokens → Read (List (String × Attr))
  | [] => .error .endOfInput
  | ⟨.ident key, _⟩ :: rest =>
    match rest with
    | ⟨.equals, _⟩ :: more =>
      match more with
      | [] => .error .endOfInput
      | t :: more =>
        match attrValue key t with
        | .error reason => .error reason
        | .ok value =>
          match more with
          | ⟨.rbrace, _⟩ :: left => .ok ([(key, value)], left)
          | ⟨.comma, _⟩ :: more =>
            match attrList more with
            | .ok (attrs, left) => .ok ((key, value) :: attrs, left)
            | .error reason => .error reason
          | t :: _ => .error (.grammar t.line (.expected .comma t.token))
          | [] => .error .endOfInput
    | ⟨.rbrace, _⟩ :: left => .ok ([(key, .flag)], left)
    | ⟨.comma, _⟩ :: more =>
      match attrList more with
      | .ok (attrs, left) => .ok ((key, .flag) :: attrs, left)
      | .error reason => .error reason
    | t :: _ => .error (.grammar t.line (.expected .comma t.token))
    | [] => .error .endOfInput
  | t :: _ => .error (.grammar t.line (.expectedAttrName t.token))

/-- A parameter of a function, with the line of its name. -/
structure Param where
  name : String
  line : Nat
  ty : Ty

/-- Parameters up to the closing parenthesis, at least one. -/
def paramList : Tokens → Read (List Param)
  | [] => .error .endOfInput
  | ⟨.value name, pos⟩ :: rest =>
    match rest with
    | ⟨.colon, _⟩ :: more =>
      match more with
      | [] => .error .endOfInput
      | t :: more =>
        match typeOfToken t with
        | .error reason => .error reason
        | .ok ty =>
          match more with
          | ⟨.rparen, _⟩ :: left => .ok ([⟨name, pos.line, ty⟩], left)
          | ⟨.comma, _⟩ :: more =>
            match paramList more with
            | .ok (params, left) => .ok (⟨name, pos.line, ty⟩ :: params, left)
            | .error reason => .error reason
          | t :: _ => .error (.grammar t.line (.expected .comma t.token))
          | [] => .error .endOfInput
    | t :: _ => .error (.grammar t.line (.expected .colon t.token))
    | [] => .error .endOfInput
  | t :: _ => .error (.grammar t.line (.expectedValue t.token))

theorem resultNames_length {ts rest : Tokens} {names : List String}
    (read : resultNames ts = .ok (names, rest)) : rest.length < ts.length := by
  fun_induction resultNames ts generalizing names <;> grind

theorem operandList_length {scope : List (String × ValueId)} {line : Nat} {ts rest : Tokens}
    {values : List ValueId} (read : operandList scope line ts = .ok (values, rest)) :
    rest.length < ts.length := by
  fun_induction operandList scope line ts generalizing values <;> grind

theorem typeList_length {line : Nat} {ts rest : Tokens} {types : List Ty}
    (read : typeList line ts = .ok (types, rest)) : rest.length < ts.length := by
  fun_induction typeList line ts generalizing types <;> grind

theorem attrList_length {ts rest : Tokens} {attrs : List (String × Attr)}
    (read : attrList ts = .ok (attrs, rest)) : rest.length < ts.length := by
  fun_induction attrList ts generalizing attrs <;> grind

theorem paramList_length {ts rest : Tokens} {params : List Param}
    (read : paramList ts = .ok (params, rest)) : rest.length < ts.length := by
  fun_induction paramList ts generalizing params <;> grind

/-- The names of the results and the equals sign after them, if there are any. -/
def results (ts : Tokens) : Read (List String) :=
  match ts with
  | ⟨.value _, _⟩ :: _ =>
    match resultNames ts with
    | .error reason => .error reason
    | .ok (names, rest) =>
      match expect .equals rest with
      | .error reason => .error reason
      | .ok left => .ok (names, left)
  | _ => .ok ([], ts)

/-- The name of an operation, with its line. It has a dot in it. -/
def opName : Tokens → Read (String × Nat)
  | [] => .error .endOfInput
  | t :: rest =>
    match t.token with
    | .ident name =>
      if name.toList.contains '.' then .ok ((name, t.line), rest)
      else .error (.grammar t.line (.expectedOpName t.token))
    | token => .error (.grammar t.line (.expectedOpName token))

/-- A symbol on the operation's line. -/
def symbolOn (line : Nat) (ts : Tokens) : Option String × Tokens :=
  match nextOn line ts with
  | some (.symbol sym) => (some sym, ts.tail)
  | _ => (none, ts)

/-- The operands that begin on the operation's line. -/
def operandsOn (scope : List (String × ValueId)) (line : Nat) (ts : Tokens) :
    Read (List ValueId) :=
  match nextOn line ts with
  | some (.value _) => operandList scope line ts
  | _ => .ok ([], ts)

/-- The attributes that begin on the operation's line. They may end on another. -/
def attrsOn (line : Nat) (ts : Tokens) : Read (List (String × Attr)) :=
  match nextOn line ts with
  | some .lbrace =>
    match ts.tail with
    | ⟨.rbrace, _⟩ :: rest => .ok ([], rest)
    | rest => attrList rest
  | _ => .ok ([], ts)

/-- The types after a colon on the operation's line. -/
def typesOn (line : Nat) (ts : Tokens) : Read (List Ty) :=
  match nextOn line ts with
  | some .colon => typeList line ts.tail
  | _ => .ok ([], ts)

theorem results_length {ts rest : Tokens} {names : List String}
    (read : results ts = .ok (names, rest)) : rest.length ≤ ts.length := by
  unfold results at read
  grind [→ resultNames_length, → expect_length]

theorem opName_length {ts rest : Tokens} {name : String × Nat}
    (read : opName ts = .ok (name, rest)) : rest.length < ts.length := by
  unfold opName at read
  grind

theorem symbolOn_length (line : Nat) (ts : Tokens) :
    (symbolOn line ts).2.length ≤ ts.length := by
  unfold symbolOn
  grind

theorem operandsOn_length {scope : List (String × ValueId)} {line : Nat} {ts rest : Tokens}
    {values : List ValueId} (read : operandsOn scope line ts = .ok (values, rest)) :
    rest.length ≤ ts.length := by
  unfold operandsOn at read
  grind [→ operandList_length]

theorem attrsOn_length {line : Nat} {ts rest : Tokens} {attrs : List (String × Attr)}
    (read : attrsOn line ts = .ok (attrs, rest)) : rest.length ≤ ts.length := by
  unfold attrsOn at read
  grind [→ attrList_length]

theorem typesOn_length {line : Nat} {ts rest : Tokens} {types : List Ty}
    (read : typesOn line ts = .ok (types, rest)) : rest.length ≤ ts.length := by
  unfold typesOn at read
  grind [→ typeList_length]

/-- The program read so far, and the values that may be used next. -/
structure State where
  program : Program := {}
  scope : List (String × ValueId) := []

/-- Bring names into scope, none of which may be there already. -/
def bindAll (scope : List (String × ValueId)) :
    List (String × Nat × ValueId) → Except ReadError (List (String × ValueId))
  | [] => .ok scope
  | (name, line, value) :: rest =>
    if (scope.lookup name).isSome then .error (.redefinition line name)
    else bindAll ((name, value) :: scope) rest

/-- An operation as it is written, with its operands looked up. -/
structure OpText where
  results : List String
  name : String
  /-- The line of the name. -/
  line : Nat
  sym : Option String
  operands : List ValueId
  attrs : List (String × Attr)
  types : List Ty

/-- Read the parts of an operation in order. -/
def opText (scope : List (String × ValueId)) (ts : Tokens) :
    Except ReadError (OpText × Tokens) := do
  let (results, ts) ← results ts
  let ((name, line), ts) ← opName ts
  let (sym, ts) := symbolOn line ts
  let (operands, ts) ← operandsOn scope line ts
  let (attrs, ts) ← attrsOn line ts
  let (types, ts) ← typesOn line ts
  return (⟨results, name, line, sym, operands, attrs, types⟩, ts)

/-- Turn a fault into an error of a line. -/
def atLine {α : Type} (line : Nat) : Except GrammarFault α → Except ReadError α
  | .ok a => .ok a
  | .error fault => .error (.grammar line fault)

/-- Append an operation to the program and bring its results into scope. `start` is the place of its
first token. -/
def placeOp (file : String) (parent : Option OpId) (start : Pos) (state : State)
    (form : OpText) : Except ReadError State := do
  let kind ← atLine form.line (OpForm.kindOf form.name form.sym form.attrs form.types)
  let types ← atLine form.line (OpForm.resultTypes kind form.name form.results form.types)
  let op : Op := { kind, operands := form.operands, loc := some ⟨file, start.line, start.col⟩ }
  let values := state.program.nextValues types.length
  match state.program.push parent op types with
  | .error reason => .error (.ir reason)
  | .ok (_, program) =>
    let bindings := (form.results.zip values).map fun (name, value) => (name, start.line, value)
    let scope ← bindAll state.scope bindings
    return { program, scope }

/-- Read an operation into a region. -/
def readOp (file : String) (parent : Option OpId) (state : State) (ts : Tokens) :
    Except ReadError (State × Tokens) :=
  match ts with
  | [] => .error .endOfInput
  | first :: _ => do
    let (form, rest) ← opText state.scope ts
    let state ← placeOp file parent first.pos state form
    return (state, rest)

theorem opText_length {scope : List (String × ValueId)} {ts rest : Tokens} {form : OpText}
    (read : opText scope ts = .ok (form, rest)) : rest.length < ts.length := by
  obtain ⟨⟨names, afterResults⟩, readResults, read⟩ := bind_eq_ok.1 read
  obtain ⟨⟨⟨name, line⟩, afterName⟩, readName, read⟩ := bind_eq_ok.1 read
  obtain ⟨⟨values, afterOperands⟩, readOperands, read⟩ := bind_eq_ok.1 read
  obtain ⟨⟨attrs, afterAttrs⟩, readAttrs, read⟩ := bind_eq_ok.1 read
  obtain ⟨⟨types, afterTypes⟩, readTypes, read⟩ := bind_eq_ok.1 read
  cases read
  have := results_length readResults
  have := opName_length readName
  have := symbolOn_length line afterName
  have : afterOperands.length ≤ (symbolOn line afterName).2.length :=
    operandsOn_length readOperands
  have := attrsOn_length readAttrs
  have := typesOn_length readTypes
  omega

theorem readOp_length {file : String} {parent : Option OpId} {state after : State}
    {ts rest : Tokens} (read : readOp file parent state ts = .ok (after, rest)) :
    rest.length < ts.length := by
  cases ts with
  | nil => cases read
  | cons first more =>
    obtain ⟨⟨form, left⟩, readText, read⟩ := bind_eq_ok.1 read
    obtain ⟨placed, -, read⟩ := bind_eq_ok.1 read
    cases read
    exact opText_length readText

/-- Does a function begin here? -/
def startsFunction : Tokens → Bool
  | t :: _ => t.token = .ident "func.func"
  | [] => false

/-- The parameters of a function, in parentheses. -/
def params (ts : Tokens) : Read (List Param) :=
  match expect .lparen ts with
  | .error reason => .error reason
  | .ok (⟨.rparen, _⟩ :: rest) => .ok ([], rest)
  | .ok rest => paramList rest

def functionName : Tokens → Read String
  | [] => .error .endOfInput
  | t :: rest =>
    match t.token with
    | .symbol name => .ok (name, rest)
    | token => .error (.grammar t.line (.expectedFunctionName token))

/-- Read a function up to the brace that opens its body. Nothing but its parameters is in scope
there. -/
def functionHead (file : String) (state : State) (ts : Tokens) :
    Except ReadError ((OpId × State) × Tokens) :=
  match ts with
  | [] => .error .endOfInput
  | first :: rest => do
    let (name, rest) ← functionName rest
    let (params, rest) ← params rest
    let loc : Loc := ⟨file, first.pos.line, first.pos.col⟩
    let (func, args, program) :=
      state.program.addFunction name (params.map Param.ty) (some loc)
    let bindings := (params.zip args).map fun (param, value) => (param.name, param.line, value)
    let scope ← bindAll [] bindings
    let rest ← expect .lbrace rest
    return ((func, { program, scope }), rest)

/-- Read the operations of a function up to the brace that closes it. -/
def functionBody (file : String) (func : OpId) (state : State) (ts : Tokens) : Read State :=
  match ts with
  | [] => .error .endOfInput
  | first :: rest =>
    if first.token = .rbrace then .ok (state, rest)
    else if startsFunction (first :: rest) then .error (.grammar first.line .nestedFunction)
    else
      match _read : readOp file (some func) state (first :: rest) with
      | .error reason => .error reason
      | .ok (after, left) => functionBody file func after left
termination_by ts.length
decreasing_by
  exact readOp_length _read

def readFunction (file : String) (state : State) (ts : Tokens) :
    Except ReadError (State × Tokens) := do
  let ((func, state), rest) ← functionHead file state ts
  functionBody file func state rest

theorem params_length {ts rest : Tokens} {list : List Param}
    (read : params ts = .ok (list, rest)) : rest.length < ts.length := by
  unfold params at read
  grind [→ expect_length, → paramList_length]

theorem functionName_length {ts rest : Tokens} {name : String}
    (read : functionName ts = .ok (name, rest)) : rest.length < ts.length := by
  unfold functionName at read
  grind

theorem functionHead_length {file : String} {state : State} {ts rest : Tokens}
    {head : OpId × State} (read : functionHead file state ts = .ok (head, rest)) :
    rest.length < ts.length := by
  cases ts with
  | nil => cases read
  | cons first more =>
    obtain ⟨⟨name, afterName⟩, readName, read⟩ := bind_eq_ok.1 read
    obtain ⟨⟨list, afterParams⟩, readParams, read⟩ := bind_eq_ok.1 read
    obtain ⟨scope, -, read⟩ := bind_eq_ok.1 read
    obtain ⟨left, readBrace, read⟩ := bind_eq_ok.1 read
    cases read
    have := functionName_length readName
    have := params_length readParams
    have := expect_length readBrace
    simp only [List.length_cons]
    omega

theorem functionBody_length {file : String} {func : OpId} {state after : State}
    {ts rest : Tokens} (read : functionBody file func state ts = .ok (after, rest)) :
    rest.length < ts.length := by
  fun_induction functionBody file func state ts <;> grind [→ readOp_length]

theorem readFunction_length {file : String} {state after : State} {ts rest : Tokens}
    (read : readFunction file state ts = .ok (after, rest)) : rest.length < ts.length := by
  obtain ⟨⟨⟨func, inside⟩, left⟩, readHead, read⟩ := bind_eq_ok.1 read
  have := functionHead_length readHead
  have := functionBody_length read
  omega

/-- Read a function or an operation of the top level. -/
def readItem (file : String) (state : State) (ts : Tokens) : Read State :=
  if startsFunction ts then readFunction file state ts else readOp file none state ts

theorem readItem_length {file : String} {state after : State} {ts rest : Tokens}
    (read : readItem file state ts = .ok (after, rest)) : rest.length < ts.length := by
  unfold readItem at read
  grind [→ readFunction_length, → readOp_length]

/-- Read all items: up to a closing brace if they are wrapped in braces, and else up to the end. -/
def readItems (file : String) (wrapped : Bool) (state : State) (ts : Tokens) : Read State :=
  match ts with
  | [] => if wrapped then .error .endOfInput else .ok (state, [])
  | first :: rest =>
    if wrapped && first.token = .rbrace then .ok (state, rest)
    else
      match _read : readItem file state (first :: rest) with
      | .error reason => .error reason
      | .ok (after, left) => readItems file wrapped after left
termination_by ts.length
decreasing_by
  exact readItem_length _read

/-- The name of a wrapped program, if it is written, and the brace after it. -/
def wrapper (ts : Tokens) : Read Program :=
  let (program, rest) : Program × Tokens :=
    match ts with
    | ⟨.symbol name, _⟩ :: rest => ({ name }, rest)
    | _ => ({}, ts)
  match expect .lbrace rest with
  | .ok rest => .ok (program, rest)
  | .error reason => .error reason

/-- Read a whole program. -/
def readProgram (file : String) (ts : Tokens) : Except ReadError Program := do
  let (state, left) ←
    match ts with
    | ⟨.ident "module", _⟩ :: rest =>
      match wrapper rest with
      | .error reason => .error reason
      | .ok (program, rest) => readItems file true { program } rest
    | _ => readItems file false {} ts
  match left with
  | [] => return state.program
  | t :: _ => .error (.grammar t.line .trailingTokens)

end RngLowering.Reader

namespace RngLowering.Program

/-- The file name in the locations of a text that comes from no file. -/
def unnamedFile : String := "<input>"

/-- The program written as `text`. `file` is the file name of its locations. -/
def ofText (file text : String) : Except ReadError Program :=
  match Lexer.tokens text with
  | .error reason => .error (.lexical reason)
  | .ok tokens => Reader.readProgram file tokens

/-- A program is read from the characters of its text. Those of a literal are at hand, so that what it
says can be evaluated without decoding it. -/
theorem exists_of_chars {file : String} {chars : List Char} {holds : Program → Prop}
    [DecidablePred holds]
    (passes : (Lexer.tokensFrom 0 {} chars).toOption.any (fun tokens =>
      (Reader.readProgram file tokens).toOption.any fun p => holds p) = true) :
    ∃ p, ofText file (String.ofList chars) = .ok p ∧ holds p := by
  obtain ⟨tokens, lexed, readable⟩ := exists_of_any passes
  obtain ⟨p, read, checked⟩ := exists_of_any readable
  refine ⟨p, ?_, of_decide_eq_true checked⟩
  rw [ofText, Lexer.tokens, String.toList_ofList, lexed]
  exact read

end RngLowering.Program
