import RngLowering.CommandLine.Directory
import RngLowering.CommandLine.Options
import RngLowering.Pipeline

/-!
The command line tool: lowers the program in a file, and writes it out or runs one of its functions.

The tool works on any host that has files, two streams and a clock.
-/

set_option autoImplicit false

namespace RngLowering.CommandLine

/-- What the tool needs of the world around it. -/
structure Host (m : Type → Type) where
  /-- Is there something at a path? -/
  holds : String → m Bool
  readText : String → m (Except FileError String)
  writeText : String → String → m (Except FileError Unit)
  out : String → m Unit
  err : String → m Unit
  /-- Time in nanoseconds. -/
  clock : m Nat

def versionText : String := "hlo-arith 0.1.0\n"

def usageText : String :=
  String.join
    ["Usage: hlo-arith [OPTIONS] <INPUT>\n\nOptions:\n",
      "  -o, --output <OUTPUT>      Output file path (stdout if omitted)\n",
      "      --emit <EMIT>          ir: the lowered module, run: the results of a function\n",
      "      --entry <ENTRY>        Function to evaluate with --emit run\n",
      "      --arg <INT>            Integer argument for the entry function (repeatable)\n",
      "      --calls <CALLS>        Number of times to call the entry function\n",
      "      --seed <INT>           Initial counter value\n",
      "      --state-symbol <NAME>  Symbol of the counter cell\n",
      "      --partial              Leave ops of unknown legality in place\n",
      "  -v, --verbose              Verbose output\n",
      "  -h, --help                 Print help\n",
      "  -V, --version              Print version\n"]

/-- An integer of the command line. `heading` says what it is for. -/
def readInteger (heading text : String) : Except Failure Nat :=
  match Numeral.readLiteral wordLimit text.toList with
  | .ok value => .ok value
  | .error fault => .error ⟨heading, [s!"Invalid integer '{text}'", fault.message]⟩

/-- The configuration that options ask for. -/
def Options.config (options : Options) : Except Failure Config := do
  let base : Config := {}
  let seed ←
    match options.seed with
    | some text => readInteger "Invalid --seed" text
    | none => .ok base.seed
  let config : Config :=
    { base with
      seed
      stateSymbol := options.stateSymbol.getD base.stateSymbol
      mode := if options.lax then .lax else .full }
  match config.validate with
  | .ok () => return config
  | .error reason => throw ⟨"Invalid configuration: " ++ reason.message, []⟩

def configText (config : Config) : String :=
  String.join
    ["Configuration:\n",
      s!"  state_symbol: {config.stateSymbol}\n",
      s!"  counter_bits: {config.counterBits}\n",
      s!"  seed:         {Numeral.hex config.seed}\n",
      s!"  mode:         {config.mode.text}\n"]

/-- A number with a fraction of so many places, without trailing zeros. -/
def decimalText (whole fraction places : Nat) : String :=
  let digits := toString fraction
  let padded := List.replicate (places - digits.length) '0' ++ digits.toList
  let kept := (padded.reverse.dropWhile (· = '0')).reverse
  if kept.isEmpty then toString whole else toString whole ++ "." ++ String.ofList kept

/-- A time in the largest unit of which it holds one. -/
def durationText (nanos : Nat) : String :=
  if nanos < 1000 then s!"{nanos}ns"
  else if nanos < 1000000 then decimalText (nanos / 1000) (nanos % 1000) 3 ++ "µs"
  else if nanos < 1000000000 then decimalText (nanos / 1000000) (nanos % 1000000) 6 ++ "ms"
  else decimalText (nanos / 1000000000) (nanos % 1000000000) 9 ++ "s"

def timingText (nanos : Nat) : String :=
  "\n=== Timing ===\nTotal:           " ++ durationText nanos ++ "\n"

/-- The lines for the results of calls and the counter after them. -/
def resultsText (sym : String) (calls : List (List Value)) (state : Option Nat) : String :=
  let lines := calls.zipIdx.map fun (values, index) =>
    let list := String.intercalate ", " (values.map Value.text)
    s!"call {index + 1}: {list}\n"
  let last :=
    match state with
    | some value => s!"@{sym} = {Numeral.hex value}\n"
    | none => s!"@{sym} was never created\n"
  String.join lines ++ last

/-- The text that options ask for. -/
def Options.outputText (options : Options) (config : Config) (p : Program) :
    Except Failure String :=
  match options.emit with
  | .ir => .ok p.text
  | .run => do
    let args ← options.args.mapM (readInteger "Invalid --arg")
    let (calls, state) ← Pipeline.runFunction p config options.entry args options.calls
    return resultsText config.stateSymbol calls state

section
variable {m : Type → Type} [Monad m]

/-- Stop at a failure of the host. -/
def attempt {α : Type} (heading : String) (action : m (Except FileError α)) :
    ExceptT Failure m α := do
  match ← action with
  | .ok a => return a
  | .error reason => throw ⟨heading, [reason.message]⟩

/-- Write a text to the output file, or else to the output stream. -/
def writeOutput (host : Host m) (output : Option String) (text : String) :
    ExceptT Failure m Unit :=
  match output with
  | some path => attempt ("Failed to write " ++ path) (host.writeText path text)
  | none => host.out text

def execute (host : Host m) (options : Options) : ExceptT Failure m Unit := do
  let config ← options.config
  if options.verbose then host.err (configText config)
  if !(← host.holds options.input) then
    throw ⟨"Input file not found: " ++ options.input, []⟩
  let source ← attempt ("Failed to read " ++ options.input) (host.readText options.input)
  let start ← host.clock
  let (p, stats) ← Pipeline.lowerText (Pipeline.ofFile options.input) config source
  let stop ← host.clock
  if options.verbose then host.err (stats.text ++ timingText (stop - start))
  writeOutput host options.output (← options.outputText config p)

/-- Run the tool. Gives its exit code: 1 for a failure, 2 for arguments that ask for nothing. -/
def tool (host : Host m) (args : List String) : m Nat := do
  match parse args with
  | .error reason =>
    host.err ("error: " ++ reason.message ++ "\n\n" ++ usageText)
    return 2
  | .ok .help =>
    host.out usageText
    return 0
  | .ok .version =>
    host.out versionText
    return 0
  | .ok (.run options) =>
    match ← (execute host options).run with
    | .ok () => return 0
    | .error failure =>
      host.err failure.text
      return 1

end

/-- A world of one directory and two streams. -/
structure World where
  directory : Directory
  out : String := ""
  err : String := ""

/-- A host whose world is data. Its clock stands still. -/
def World.host : Host (StateM World) where
  holds path := return (← get).directory.holds path
  readText path := return (← get).directory.readText path
  writeText path text := do
    match (← get).directory.writeText path text with
    | .ok directory =>
      modify ({ · with directory })
      return .ok ()
    | .error reason => return .error reason
  out text := modify fun w => { w with out := w.out ++ text }
  err text := modify fun w => { w with err := w.err ++ text }
  clock := return 0

end RngLowering.CommandLine
