import RngLowering.Conversion.Error
import RngLowering.Event
import RngLowering.Program.Builder

set_option autoImplicit false

namespace RngLowering

/-- A change of a program that may fail. A failure leaves the program as far as it got. -/
abbrev Edit (α : Type) := EStateM ConvertError Program α

namespace Edit

def ofExcept {α : Type} (outcome : Except IrError α) : Edit α := fun p =>
  match outcome with
  | .ok a => .ok a p
  | .error reason => .error (.ir reason) p

/-- Build in the program from the point of a builder. -/
def build {α : Type} (b : Builder) (steps : Build α) : Edit α := fun _ =>
  match steps b with
  | .ok a after => .ok a after.program
  | .error reason after => .error (.ir reason) after.program

/-- Build right before an operation. -/
def buildBefore {α : Type} (anchor : OpId) (steps : Build α) : Edit α := do
  let b ← ofExcept (Builder.before (← get) anchor)
  build b steps

def replace (id : OpId) (values : List ValueId) : Edit Unit := do
  set (← ofExcept ((← get).replace id values))

def erase (id : OpId) : Edit Unit := do
  let (_, after) ← ofExcept ((← get).erase id)
  set after

end Edit

structure Rule where
  name : String
  /-- Name of the operations it is for. -/
  root : String
  /-- Can it convert this operation now? -/
  applies : Program → OpId → Bool
  /-- Convert an operation. Gives what there is to report. -/
  apply : OpId → Edit (List Event)

/-- Rules in the order in which they are tried. -/
abbrev RuleSet := List Rule

/-- The rules for operations of a name. -/
def RuleSet.rulesFor (rules : RuleSet) (name : String) : List Rule :=
  rules.filter (·.root = name)

/-- The first rule that can convert an operation. -/
def RuleSet.find? (rules : RuleSet) (p : Program) (id : OpId) (name : String) : Option Rule :=
  (rules.rulesFor name).find? (·.applies p id)

end RngLowering
