import RngLowering.Config.Json
import RngLowering.Conversion.Stock
import RngLowering.Main
import RngLowering.Proofs.Acceptance
import RngLowering.Proofs.Activations
import RngLowering.Proofs.Arena
import RngLowering.Proofs.BlockMeaning
import RngLowering.Proofs.BlockShape
import RngLowering.Proofs.Blocks
import RngLowering.Proofs.BuilderCalls
import RngLowering.Proofs.CellEffects
import RngLowering.Proofs.Clashes
import RngLowering.Proofs.CounterCell
import RngLowering.Proofs.CounterRuns
import RngLowering.Proofs.Decimal
import RngLowering.Proofs.DefUse
import RngLowering.Proofs.Descent
import RngLowering.Proofs.EarlyCounter
import RngLowering.Proofs.Edits
import RngLowering.Proofs.ElementCounts
import RngLowering.Proofs.Emission
import RngLowering.Proofs.Erasure
import RngLowering.Proofs.Exchange
import RngLowering.Proofs.Expansion
import RngLowering.Proofs.Figures
import RngLowering.Proofs.FittingValues
import RngLowering.Proofs.Frame
import RngLowering.Proofs.JoinedTokens
import RngLowering.Proofs.Layout
import RngLowering.Proofs.Legible
import RngLowering.Proofs.Lexemes
import RngLowering.Proofs.Lexing
import RngLowering.Proofs.LoweredText
import RngLowering.Proofs.Meaning
import RngLowering.Proofs.Modes
import RngLowering.Proofs.Outline
import RngLowering.Proofs.Placement
import RngLowering.Proofs.Positions
import RngLowering.Proofs.Printing
import RngLowering.Proofs.ReadBack
import RngLowering.Proofs.Reading
import RngLowering.Proofs.Renaming
import RngLowering.Proofs.Replacement
import RngLowering.Proofs.Requests
import RngLowering.Proofs.RoundTrip
import RngLowering.Proofs.RuleEffects
import RngLowering.Proofs.RunTypes
import RngLowering.Proofs.Scanning
import RngLowering.Proofs.Scopes
import RngLowering.Proofs.Simulation
import RngLowering.Proofs.StepEffects
import RngLowering.Proofs.Survivors
import RngLowering.Proofs.TypeGrammar
import RngLowering.Proofs.TypeText
import RngLowering.Proofs.Verdict
import RngLowering.Proofs.WellFormed
import RngLowering.Proofs.WordValues
import RngLowering.Proofs.Words
import RngLowering.Proofs.Worklist
import RngLowering.Proofs.WrittenForm
