import RngLowering.Config
import RngLowering.Json

/-!
Configurations as JSON.

A configuration is an object of fields, where those that are missing have their defaults and others
are ignored, or a list of the fields in order, of which the last ones may be missing.
-/

set_option autoImplicit false

namespace RngLowering.Config

/-- An integer without sign, fraction or exponent, below a limit. -/
def natOfJson? (limit : Nat) : Json → Option Nat
  | .num digits => (Numeral.readUnsigned 10 limit digits).toOption
  | _ => none

def modeOfName? (name : String) : Option Mode :=
  if name = "Full" then some .full
  else if name = "Partial" then some .lax
  else none

/-- A mode by its name, which may also be the one key of an object with the value null. -/
def modeOfJson? : Json → Option Mode
  | .str (some name) => modeOfName? name
  | .obj [(some name, .null)] => modeOfName? name
  | _ => none

/-- The fields of a configuration, in order. -/
def fieldNames : List String := ["state_symbol", "counter_bits", "seed", "mode"]

/-- Set one field. Names that no field has change nothing. -/
def setField? (config : Config) (name : String) (value : Json) : Option Config :=
  if name = "state_symbol" then
    match value with
    | .str (some stateSymbol) => some { config with stateSymbol }
    | _ => none
  else if name = "counter_bits" then
    (natOfJson? (Nat.pow 2 32) value).map fun counterBits => { config with counterBits }
  else if name = "seed" then
    (natOfJson? wordLimit value).map fun seed => { config with seed }
  else if name = "mode" then
    (modeOfJson? value).map fun mode => { config with mode }
  else some config

/-- Set fields in order, none of them twice. -/
def setFields? : Config → List String → List (Option String × Json) → Option Config
  | config, _, [] => some config
  | config, seen, (key, value) :: rest => do
    let name ← key
    guard (!seen.contains name || !fieldNames.contains name)
    let config ← config.setField? name value
    setFields? config (name :: seen) rest

def ofJson? (text : String) : Option Config := do
  match ← Json.ofText? text with
  | .obj members => setFields? {} [] members
  | .arr items =>
    guard (items.length ≤ fieldNames.length)
    setFields? {} [] ((fieldNames.map some).zip items)
  | _ => none

def modeName : Mode → String
  | .full => "Full"
  | .lax => "Partial"

/-- All fields in order, without blanks. -/
def toJson (config : Config) : String :=
  "\x7b\"state_symbol\":" ++ Json.writtenString config.stateSymbol ++
    ",\"counter_bits\":" ++ toString config.counterBits ++
    ",\"seed\":" ++ toString config.seed ++
    ",\"mode\":" ++ Json.writtenString (modeName config.mode) ++ "\x7d"

end RngLowering.Config
