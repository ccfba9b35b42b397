import CrossLookup.Challenge.Basic
import CrossLookup.Challenge.Codec
import CrossLookup.Circuit.Accumulator
import CrossLookup.Circuit.Builder
import CrossLookup.Circuit.Column
import CrossLookup.Circuit.Gate
import CrossLookup.Circuit.Given
import CrossLookup.Circuit.Lookup
import CrossLookup.Circuit.Program
import CrossLookup.Circuit.Transcript
import CrossLookup.Circuit.Verification
import CrossLookup.Circuit.Wire
import CrossLookup.Circuit.Witness
import CrossLookup.Column
import CrossLookup.Config
import CrossLookup.Consistency
import CrossLookup.Constraint.Accumulator
import CrossLookup.Constraint.Lookup
import CrossLookup.Constraint.Scan
import CrossLookup.Demo
import CrossLookup.Field.Algebra
import CrossLookup.Field.Batch
import CrossLookup.Field.Cubic
import CrossLookup.Field.Goldilocks
import CrossLookup.Field.Lanes
import CrossLookup.Lookup
import CrossLookup.Main
import CrossLookup.MemoryBus.Constraints
import CrossLookup.MemoryBus.Layout
import CrossLookup.MemoryBus.Lookup
import CrossLookup.MemoryBus.Sample
import CrossLookup.Opening.Basic
import CrossLookup.Opening.Distribution
import CrossLookup.Opening.Queues
import CrossLookup.Opening.Wires
import CrossLookup.Product.Running
import CrossLookup.Proofs.Circuit.Accumulator
import CrossLookup.Proofs.Circuit.Build
import CrossLookup.Proofs.Circuit.Column
import CrossLookup.Proofs.Circuit.Computes
import CrossLookup.Proofs.Circuit.Extension
import CrossLookup.Proofs.Circuit.Given
import CrossLookup.Proofs.Circuit.Lookup
import CrossLookup.Proofs.Circuit.Transcript
import CrossLookup.Proofs.Circuit.Verification
import CrossLookup.Proofs.Circuit.Witness
import CrossLookup.Proofs.Collisions
import CrossLookup.Proofs.Completeness
import CrossLookup.Proofs.Consistency
import CrossLookup.Proofs.Constraint.Map
import CrossLookup.Proofs.Constraint.Residuals
import CrossLookup.Proofs.Constraint.RunningProduct
import CrossLookup.Proofs.Constraint.Scan
import CrossLookup.Proofs.Constraint.Tampering
import CrossLookup.Proofs.Field.Cubic
import CrossLookup.Proofs.Field.Lanes
import CrossLookup.Proofs.Field.Polynomial
import CrossLookup.Proofs.Field.Residue
import CrossLookup.Proofs.Field.TrailingZeros
import CrossLookup.Proofs.GrandProduct
import CrossLookup.Proofs.Layout
import CrossLookup.Proofs.Opening.Distribution
import CrossLookup.Proofs.PayloadWidth
import CrossLookup.Proofs.Prover
import CrossLookup.Proofs.SelectedRows
import CrossLookup.Proofs.Soundness
import CrossLookup.Proofs.Sponge.Binding
import CrossLookup.Proofs.Sponge.Transcript
import CrossLookup.Proofs.Traversal
import CrossLookup.Proofs.Verification.Identities
import CrossLookup.Proofs.Verification.Schedule
import CrossLookup.Prover
import CrossLookup.Random.MersenneTwister
import CrossLookup.Random.Shuffle
import CrossLookup.Serial.ByteQueue
import CrossLookup.Sponge.Exchange
import CrossLookup.Sponge.Montgomery
import CrossLookup.Sponge.Permutation
import CrossLookup.Sponge.Transcript
import CrossLookup.Table
import CrossLookup.Text.Json
import CrossLookup.Text.JsonReader
import CrossLookup.Text.LeadingNumber
import CrossLookup.Trace
import CrossLookup.Verification.Identities
import CrossLookup.Violation
import CrossLookup.Word
import CrossLookup.Proofs.Field.Extension
import CrossLookup.Proofs.Sponge.Montgomery
import CrossLookup.Proofs.Sponge.Substitution
import CrossLookup.Proofs.Sponge.Permutation
import CrossLookup.Proofs.Circuit.Completion
import CrossLookup.Proofs.Circuit.Interpretation
import CrossLookup.Proofs.Circuit.SingleAssignment
import CrossLookup.Proofs.Circuit.Calls
import CrossLookup.Proofs.Circuit.Compilation
import CrossLookup.Proofs.Serial.ByteQueue
import CrossLookup.Proofs.Challenge.Codec
import CrossLookup.Proofs.Opening.Exact
import CrossLookup.Proofs.Verification.Positions
import CrossLookup.Proofs.MemoryBus.Sample
import CrossLookup.Proofs.MemoryBus.Consistency
import CrossLookup.Proofs.Constraint.Openings
import CrossLookup.Proofs.MemoryBus.Provable
import CrossLookup.Proofs.Demo
import CrossLookup.Proofs.Column
import CrossLookup.Proofs.Product.Suffix
import CrossLookup.Proofs.Inconsistency
import CrossLookup.Proofs.MemoryBus.Layout
import CrossLookup.Proofs.MemoryBus.Constraints
import CrossLookup.Proofs.MemoryBus.BinaryChannels
import CrossLookup.Proofs.Field.Arithmetic
import CrossLookup.Proofs.Field.Remainder
import CrossLookup.Proofs.Field.Batch
import CrossLookup.Proofs.Circuit.Reading
import CrossLookup.Proofs.MemoryBus.Circuit
import CrossLookup.Proofs.Field.Horner
import CrossLookup.Proofs.Constraint.Folding
import CrossLookup.Proofs.Circuit.Combination
import CrossLookup.Proofs.Circuit.Emission
import CrossLookup.Proofs.Challenge.ElementCodec
import CrossLookup.Proofs.Recomposition
import CrossLookup.Proofs.Sponge.ByteLookup
import CrossLookup.Proofs.Serial.Accesses
import CrossLookup.Proofs.Sponge.Buffers
import CrossLookup.Proofs.Text.LeadingNumber
import CrossLookup.Proofs.Config
import CrossLookup.Proofs.Circuit.Surroundings
import CrossLookup.Proofs.Evaluation
