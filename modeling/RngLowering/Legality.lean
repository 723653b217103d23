import RngLowering.Op
import RngLowering.Table

set_option autoImplicit false

namespace RngLowering

inductive Legality where
  | legal
  | illegal
  /-- Neither marked legal nor illegal. -/
  | unknown
  deriving DecidableEq

def Legality.text : Legality → String
  | .legal => "legal"
  | .illegal => "illegal"
  | .unknown => "unknown"

/-- What to do with operations of unknown legality. -/
inductive Mode where
  /-- They have to be converted. -/
  | full
  /-- They may stay. -/
  | lax
  deriving DecidableEq

namespace Mode

def text : Mode → String
  | .full => "full"
  | .lax => "partial"

/-- Does an operation of this legality have to be converted? -/
def converts : Mode → Legality → Bool
  | .full, legality => legality ≠ .legal
  | .lax, legality => legality = .illegal

end Mode

/-- A conversion target: marks on single operations and on whole dialects. -/
structure Target where
  dialects : Table Legality := []
  ops : Table Legality := []

namespace Target

def markDialect (target : Target) (dialect : String) (legality : Legality) : Target :=
  { target with dialects := target.dialects.put dialect legality }

def markOp (target : Target) (name : String) (legality : Legality) : Target :=
  { target with ops := target.ops.put name legality }

/-- A mark on the operation counts before one on its dialect. -/
def legality (target : Target) (name : String) : Legality :=
  match target.ops.lookup name with
  | some legality => legality
  | none => (target.dialects.lookup (dialectOf name)).getD .unknown

/-- The legal dialects, in the order of their first marks. -/
def legalDialects (target : Target) : List String :=
  (target.dialects.filter (·.2 = .legal)).map (·.1)

end Target

end RngLowering
