set_option autoImplicit false

namespace RngLowering

/-- A place in a source file. Lines and columns count from one, and are 32-bit numbers as those of a
text are: there are fewer than `2 ^ 32` of each. -/
structure Loc where
  file : String
  line : Nat
  col : Nat
  deriving DecidableEq

namespace Loc

/-- The place of something that has none. -/
def unknown : Loc := ⟨"", 0, 0⟩

/-- A location is unknown if it has neither line nor column, whatever its file. -/
def isUnknown (loc : Loc) : Bool :=
  loc.line = 0 && loc.col = 0

def text (loc : Loc) : String :=
  if loc.isUnknown then "<unknown>"
  else if loc.file.isEmpty then s!"{loc.line}:{loc.col}"
  else s!"{loc.file}:{loc.line}:{loc.col}"

end Loc

/-- A message with its location in front, if that is known. -/
def locate (loc : Option Loc) (message : String) : String :=
  match loc with
  | none => message
  | some loc => if loc.isUnknown then message else s!"{loc.text}: {message}"

end RngLowering
