import RngLowering.Numeral
import RngLowering.Ty

/-!
Command line options.

A value follows its option as the next argument, or in the same one after `=`; a value in an
argument of its own does not begin with a dash. One-letter options may share a dash, and the last of
them may have a value. After `--` all arguments are inputs. No option but `--arg` may be repeated.
-/

set_option autoImplicit false

namespace RngLowering.CommandLine

/-- What is written out. -/
inductive Emit where
  /-- The lowered program. -/
  | ir
  /-- The results of a function. -/
  | run
  deriving DecidableEq

structure Options where
  input : String
  output : Option String := none
  emit : Emit := .ir
  entry : String := "main"
  args : List String := []
  calls : Nat := 1
  seed : Option String := none
  stateSymbol : Option String := none
  lax : Bool := false
  verbose : Bool := false

inductive Request where
  | run (options : Options)
  | help
  | version

inductive UsageError where
  | unknownOption (arg : String)
  | unexpectedInput (arg : String)
  | missingValue (option : String)
  | unexpectedValue (option value : String)
  | invalidValue (option value : String)
  | repeated (option : String)
  | missingInput

def UsageError.message : UsageError → String
  | .unknownOption arg => s!"unexpected argument '{arg}' found"
  | .unexpectedInput arg => s!"unexpected argument '{arg}' found"
  | .missingValue option => s!"a value is required for '--{option}' but none was supplied"
  | .unexpectedValue option value => s!"unexpected value '{value}' for '--{option}' found"
  | .invalidValue option value => s!"invalid value '{value}' for '--{option}'"
  | .repeated option => s!"the argument '--{option}' cannot be used multiple times"
  | .missingInput => "the following required arguments were not provided:\n  <INPUT>"

/-- The options read so far; `none` for what was not given. -/
structure Draft where
  input : Option String := none
  output : Option String := none
  emit : Option Emit := none
  entry : Option String := none
  args : List String := []
  calls : Option Nat := none
  seed : Option String := none
  stateSymbol : Option String := none
  lax : Bool := false
  verbose : Bool := false

inductive Flag where
  | lax
  | verbose
  | help
  | version

inductive Setting where
  | output
  | emit
  | entry
  | arg
  | calls
  | seed
  | stateSymbol

def Setting.text : Setting → String
  | .output => "output"
  | .emit => "emit"
  | .entry => "entry"
  | .arg => "arg"
  | .calls => "calls"
  | .seed => "seed"
  | .stateSymbol => "state-symbol"

/-- The flag or setting of a long name. -/
def ofLongName? (name : String) : Option (Flag ⊕ Setting) :=
  [("partial", .inl .lax), ("verbose", .inl .verbose), ("help", .inl .help),
    ("version", .inl .version), ("output", .inr .output), ("emit", .inr .emit),
    ("entry", .inr .entry), ("arg", .inr .arg), ("calls", .inr .calls), ("seed", .inr .seed),
    ("state-symbol", .inr .stateSymbol)].lookup name

/-- The flag or setting of a letter. -/
def ofLetter? (letter : Char) : Option (Flag ⊕ Setting) :=
  [('v', .inl .verbose), ('h', .inl .help), ('V', .inl .version),
    ('o', .inr .output)].lookup letter

def emitOf? (value : String) : Option Emit :=
  if value = "ir" then some .ir
  else if value = "run" then some .run
  else none

/-- Fill in something that was not given before. -/
def fresh {α : Type} (setting : Setting) (old : Option α) (new : α) :
    Except UsageError (Option α) :=
  if old.isSome then .error (.repeated setting.text) else .ok (some new)

/-- A value that has to be of a certain form. -/
def parsed {α : Type} (setting : Setting) (value : String) (result : Option α) :
    Except UsageError α :=
  match result with
  | some a => .ok a
  | none => .error (.invalidValue setting.text value)

/-- Give a setting its value. A path is not empty, and the number of calls is a size. -/
def Draft.set (draft : Draft) (setting : Setting) (value : String) : Except UsageError Draft :=
  match setting with
  | .output => do
    if value.isEmpty then throw (.invalidValue setting.text value)
    return { draft with output := ← fresh setting draft.output value }
  | .emit => do
    let emit ← parsed setting value (emitOf? value)
    return { draft with emit := ← fresh setting draft.emit emit }
  | .entry => return { draft with entry := ← fresh setting draft.entry value }
  | .arg => .ok { draft with args := draft.args ++ [value] }
  | .calls => do
    let calls ← parsed setting value (Numeral.readUnsigned 10 sizeLimit value.toList).toOption
    return { draft with calls := ← fresh setting draft.calls calls }
  | .seed => return { draft with seed := ← fresh setting draft.seed value }
  | .stateSymbol => return { draft with stateSymbol := ← fresh setting draft.stateSymbol value }

/-- Give the input, which is not empty. -/
def Draft.setInput (draft : Draft) (arg : String) : Except UsageError Draft :=
  if draft.input.isSome then .error (.unexpectedInput arg)
  else if arg.isEmpty then .error (.unexpectedInput arg)
  else .ok { draft with input := some arg }

def Draft.finish (draft : Draft) : Except UsageError Request :=
  match draft.input with
  | none => .error .missingInput
  | some input =>
    .ok <| .run
      { input
        output := draft.output
        emit := draft.emit.getD .ir
        entry := draft.entry.getD "main"
        args := draft.args
        calls := draft.calls.getD 1
        seed := draft.seed
        stateSymbol := draft.stateSymbol
        lax := draft.lax
        verbose := draft.verbose }

/-- Raise a flag. Asking for help or the version ends the reading of options. -/
def Draft.raise (draft : Draft) : Flag → Except UsageError (Request ⊕ Draft)
  | .help => .ok (.inl .help)
  | .version => .ok (.inl .version)
  | .lax =>
    if draft.lax then .error (.repeated "partial") else .ok (.inr { draft with lax := true })
  | .verbose =>
    if draft.verbose then .error (.repeated "verbose")
    else .ok (.inr { draft with verbose := true })

/-- Can the argument be the value of the option before it? A lone dash can. -/
def isValue (arg : String) : Bool :=
  match arg.toList with
  | '-' :: _ :: _ => false
  | _ => true

/-- What the letters after a dash ask for: an end, a setting that lacks its value, or no more. -/
inductive LetterOutcome where
  | request (request : Request)
  | draft (draft : Draft)
  | wants (draft : Draft) (setting : Setting)

/-- The letters after a dash. -/
def readLetters (arg : String) : Draft → List Char → Except UsageError LetterOutcome
  | draft, [] => .ok (.draft draft)
  | draft, letter :: rest =>
    match ofLetter? letter with
    | none => .error (.unknownOption arg)
    | some (.inl flag) => do
      match ← draft.raise flag with
      | .inl request => return .request request
      | .inr draft => readLetters arg draft rest
    | some (.inr setting) =>
      match rest with
      | [] => .ok (.wants draft setting)
      | '=' :: value => return .draft (← draft.set setting (String.ofList value))
      | value => return .draft (← draft.set setting (String.ofList value))

/-- A long option: its name, and the value after an equals sign if there is one. -/
def splitLong (chars : List Char) : String × Option String :=
  let name := chars.takeWhile (· ≠ '=')
  (String.ofList name,
    match chars.drop name.length with
    | _ :: value => some (String.ofList value)
    | [] => none)

/-- The arguments after `--`. -/
def readInputs : Draft → List String → Except UsageError Request
  | draft, [] => draft.finish
  | draft, arg :: rest => do
    readInputs (← draft.setInput arg) rest

/-- Read arguments from left to right. -/
def readArgs : Draft → List String → Except UsageError Request
  | draft, [] => draft.finish
  | draft, arg :: rest =>
    match arg.toList with
    | ['-', '-'] => readInputs draft rest
    | '-' :: '-' :: chars =>
      let (name, attached) := splitLong chars
      match ofLongName? name, attached with
      | none, _ => .error (.unknownOption arg)
      | some (.inl _), some value => .error (.unexpectedValue name value)
      | some (.inl flag), none => do
        match ← draft.raise flag with
        | .inl request => return request
        | .inr draft => readArgs draft rest
      | some (.inr setting), some value => do
        readArgs (← draft.set setting value) rest
      | some (.inr setting), none => readValue draft setting rest
    | '-' :: letter :: letters => do
      match ← readLetters arg draft (letter :: letters) with
      | .request request => return request
      | .draft draft => readArgs draft rest
      | .wants draft setting => readValue draft setting rest
    | _ => do
      readArgs (← draft.setInput arg) rest
where
  /-- The value of a setting in the next argument, and the arguments after that. -/
  readValue (draft : Draft) (setting : Setting) (rest : List String) :
      Except UsageError Request :=
    match rest with
    | [] => .error (.missingValue setting.text)
    | value :: rest =>
      if isValue value then do
        readArgs (← draft.set setting value) rest
      else .error (.missingValue setting.text)

/-- What the arguments ask for. -/
def parse (args : List String) : Except UsageError Request := readArgs {} args

end RngLowering.CommandLine
