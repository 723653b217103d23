import RngLowering.Eval.Machine
import RngLowering.Lowering
import RngLowering.Program.Printer
import RngLowering.Program.Reader

set_option autoImplicit false

namespace RngLowering

/-- A failure, and what caused it, outermost first. -/
structure Failure where
  message : String
  causes : List String := []

namespace Failure

/-- A cause under the heading of its number, if it has one. Further lines are indented as far. -/
def causeLines (number : Option Nat) (cause : String) : String :=
  let (first, indent) :=
    match number with
    | some n => ("".pushn ' ' (5 - (toString n).length) ++ toString n ++ ": ", "       ")
    | none => ("    ", "    ")
  first ++ String.intercalate ("\n" ++ indent) (cause.splitOn "\n")

/-- The failure for a reader: several causes are numbered. -/
def text (failure : Failure) : String :=
  let causes :=
    match failure.causes with
    | [] => []
    | [cause] => [causeLines none cause]
    | causes => causes.zipIdx.map fun (cause, n) => causeLines (some n) cause
  let list := if causes.isEmpty then "" else "\n\nCaused by:\n" ++ String.intercalate "\n" causes
  "Error: " ++ failure.message ++ list ++ "\n"

end Failure

/-- What the steps of the pipeline are called in its failures. -/
structure Pipeline.Names where
  file : String
  program : String

namespace Pipeline

/-- Names for a text that comes from no file. -/
def unnamed : Names := ⟨Program.unnamedFile, "module"⟩

/-- Names for the text of a file. -/
def ofFile (path : String) : Names := ⟨path, path⟩

/-- Read and lower a program. -/
def lowerText (names : Names) (config : Config) (text : String) :
    Except Failure (Program × Stats) :=
  match Program.ofText names.file text with
  | .error reason => .error ⟨"Failed to parse " ++ names.program, reason.message :: reason.causes⟩
  | .ok p =>
    let result := lower config p
    let heading := "Failed to legalize " ++ names.program
    match result.verdict with
    | .done stats => .ok (result.program, stats)
    | .failed reason => .error ⟨heading, reason.message :: reason.causes⟩
    | .exhausted => .error ⟨heading, []⟩

/-- Call a function some times on one machine. Gives the results of each call and the final value of
the counter. -/
def callTimes (ev : Evaluator) (entry : String) (args : List Nat) :
    Nat → Nat → Machine → Except Failure (List (List Value) × Option Nat)
  | _, 0, m => .ok ([], m.global? ev.config.stateSymbol)
  | number, calls + 1, m =>
    match ev.callInts entry args m with
    | .error reason _ => .error ⟨s!"Call {number} of @{entry} failed", [reason.message]⟩
    | .ok values m => do
      let (more, state) ← callTimes ev entry args (number + 1) calls m
      return (values :: more, state)

def runFunction (p : Program) (config : Config) (entry : String) (args : List Nat) (calls : Nat) :
    Except Failure (List (List Value) × Option Nat) :=
  callTimes { program := p, config } entry args 1 calls (Machine.ofProgram p)

end Pipeline

end RngLowering
