import TokenGrammar.Json.Parser
import TokenGrammar.Main
import TokenGrammar.Proofs.Binding.Again
import TokenGrammar.Proofs.Binding.Confined
import TokenGrammar.Proofs.Binding.EmptyEntry
import TokenGrammar.Proofs.Binding.Entries
import TokenGrammar.Proofs.Binding.Items
import TokenGrammar.Proofs.Binding.Multivalue
import TokenGrammar.Proofs.Binding.RoundTrip
import TokenGrammar.Proofs.Binding.Validity
import TokenGrammar.Proofs.Boxer.AmountSign
import TokenGrammar.Proofs.Boxer.Currency
import TokenGrammar.Proofs.Boxer.DateTime
import TokenGrammar.Proofs.Boxer.DateTimeFault
import TokenGrammar.Proofs.Boxer.TypedNumber
import TokenGrammar.Proofs.Boxer.WholeAmount
import TokenGrammar.Proofs.Chain
import TokenGrammar.Proofs.Choice
import TokenGrammar.Proofs.Emitter
import TokenGrammar.Proofs.Machine.Context
import TokenGrammar.Proofs.Machine.FirstReady
import TokenGrammar.Proofs.Machine.Output
import TokenGrammar.Proofs.Machine.Requests
import TokenGrammar.Proofs.Machine.Reset
import TokenGrammar.Proofs.Machine.Rewind
import TokenGrammar.Proofs.Numeric.Arithmetic
import TokenGrammar.Proofs.Numeric.Power
import TokenGrammar.Proofs.Numeric.Reading
import TokenGrammar.Proofs.Numeric.Rounding
import TokenGrammar.Proofs.Numeric.Shortest
import TokenGrammar.Proofs.Options.LastIssued
import TokenGrammar.Proofs.Options.Search
import TokenGrammar.Proofs.Renderer
import TokenGrammar.Proofs.Schematic.Shape
import TokenGrammar.Proofs.Slot.Archive
import TokenGrammar.Proofs.Slot.FixedOptions
import TokenGrammar.Proofs.Slot.Log
import TokenGrammar.Proofs.Slot.Stack
import TokenGrammar.Renderer
import TokenGrammar.Watchers
