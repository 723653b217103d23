import RngLowering.Legality
import RngLowering.Numeral

set_option autoImplicit false

namespace RngLowering

structure Config where
  /-- Name of the counter cell. -/
  stateSymbol : String := "rng_state"
  /-- Width of the counter. -/
  counterBits : Nat := 128
  /-- Value of a counter that is first used. -/
  seed : Nat := 0x7012395
  mode : Mode := .full
  deriving DecidableEq

inductive ConfigError where
  | emptySymbol
  | counterBits (bits : Nat)
  | seedTooWide (seed bits : Nat)
  deriving DecidableEq

def ConfigError.message : ConfigError → String
  | .emptySymbol => "state_symbol must not be empty"
  | .counterBits bits => s!"counter_bits must be 1-128, got {bits}"
  | .seedTooWide seed bits => s!"seed {Numeral.hex seed} does not fit in {bits} bits"

/-- The name is there, the counter fits a word, and the seed fits the counter. -/
def Config.validate (config : Config) : Except ConfigError Unit :=
  if config.stateSymbol.isEmpty then .error .emptySymbol
  else if config.counterBits = 0 || maxBits < config.counterBits then
    .error (.counterBits config.counterBits)
  else if bitLimit config.counterBits ≤ config.seed then
    .error (.seedTooWide config.seed config.counterBits)
  else .ok ()

theorem Config.validate_eq_ok {config : Config} :
    config.validate = .ok () ↔
      config.stateSymbol.isEmpty = false ∧
        (1 ≤ config.counterBits ∧ config.counterBits ≤ maxBits) ∧
        config.seed < bitLimit config.counterBits := by
  unfold Config.validate
  cases config.stateSymbol.isEmpty with
  | true => simp
  | false =>
    by_cases outOfRange : config.counterBits = 0 ∨ maxBits < config.counterBits
    · have notInRange : ¬(1 ≤ config.counterBits ∧ config.counterBits ≤ maxBits) := by omega
      simp [outOfRange, notInRange]
    · have inRange : 1 ≤ config.counterBits ∧ config.counterBits ≤ maxBits := by omega
      simp [outOfRange, inRange]

end RngLowering
