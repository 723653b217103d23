import RngLowering.Legality
import RngLowering.Numeral

set_option autoImplicit false

namespace RngLowering

inductive Level where
  | warn
  | debug
  | trace
  deriving DecidableEq

def Level.text : Level → String
  | .warn => "WARN"
  | .debug => "DEBUG"
  | .trace => "TRACE"

inductive Event where
  | converting (program : String) (queued : Nat) (mode : Mode)
  | visiting (id : OpId) (name : String)
  | applied (rule name : String) (id : OpId)
  | converted (program : String) (times created : Nat)
  | stuck (program : String) (remaining : Nat)
  | reusedCell (sym : String) (id : OpId)
  | createdCell (sym : String) (ty : Ty) (seed : Nat)
  | calling (func : String) (args : Nat)
  | evaluating (id : OpId) (name : String)
  deriving DecidableEq

namespace Event

def level : Event → Level
  | .stuck _ _ => .warn
  | .converting _ _ _ => .debug
  | .applied _ _ _ => .debug
  | .converted _ _ _ => .debug
  | .createdCell _ _ _ => .debug
  | .visiting _ _ => .trace
  | .reusedCell _ _ => .trace
  | .calling _ _ => .trace
  | .evaluating _ _ => .trace

def message : Event → String
  | .converting program queued mode =>
    s!"Legalizing module '{program}': {queued} op(s) on the worklist ({mode.text} mode)"
  | .visiting id name => s!"Visiting {opText id} '{name}'"
  | .applied rule name id => s!"Pattern '{rule}' rewrote '{name}' ({opText id})"
  | .converted program times created =>
    s!"Legalized module '{program}': {times} rewrite(s), {created} op(s) created"
  | .stuck program remaining => s!"Failed to legalize {remaining} op(s) in module '{program}'"
  | .reusedCell sym id => s!"Reusing counter cell @{sym} ({opText id})"
  | .createdCell sym ty seed =>
    s!"Created counter cell @{sym} : {ty.text} (seed {Numeral.hex seed})"
  | .calling func args => s!"Calling @{func} with {args} argument(s)"
  | .evaluating id name => s!"Evaluating {opText id} '{name}'"

/-- The line for a log. -/
def text (event : Event) : String :=
  event.level.text ++ " " ++ event.message

end Event

end RngLowering
