import CrossLookup.MemoryBus.Layout
import CrossLookup.Random.Shuffle
import CrossLookup.Table
import CrossLookup.Trace
import CrossLookup.Verification.Identities

/-!
# Random samples of the memory bus

CPU and Memory traces that agree under the memory lookup. Every used channel is
one Memory row; some Memory rows have no CPU row and must be fed to the lookup
from outside. The Memory rows are shuffled and end in three rows of padding.
-/

namespace CrossLookup.MemoryBus

/-- Traces with the Memory payloads that no CPU row looks up. -/
structure Sample where
  traces : PerTable Trace
  extraRows : List (List Goldilocks)
deriving DecidableEq

/-- The rows to feed into the lookups from outside. -/
def Sample.outsideRows (sample : Sample) : ExtraRows :=
  (PerTable.const []).set .memory sample.extraRows

variable {σ : Type} (source : RandomSource σ)

/-- A random bit. -/
def drawBit : StateM σ Goldilocks := do
  return .ofWord ((← source.word) &&& 1)

/-- A random number below a small bound. -/
def drawSmall (bound : UInt64) : StateM σ Goldilocks := do
  return .ofWord ((← source.word) % bound)

/-- A random word, reduced. -/
def drawValue : StateM σ Goldilocks := do
  return .ofWord (← source.word)

/-- A memory channel with random values. -/
def drawChannel : StateM σ (Channel Goldilocks) := do
  let used ← drawBit source
  let isRead ← drawBit source
  let context ← drawSmall source 16
  let segment ← drawSmall source 8
  let address ← drawSmall source 65536
  let value ← drawValue source
  return ⟨used, isRead, context, segment, address, value⟩

/-- Draw a number of values in order. -/
def drawTimes {α : Type} (draw : StateM σ α) : Nat → StateM σ (List α)
  | 0 => return []
  | n + 1 => do
      let a ← draw
      let rest ← drawTimes draw n
      return a :: rest

/-- The six memory channels of a row. -/
def drawChannels : StateM σ (Vector (Channel Goldilocks) 6) := do
  let c0 ← drawChannel source
  let c1 ← drawChannel source
  let c2 ← drawChannel source
  let c3 ← drawChannel source
  let c4 ← drawChannel source
  let c5 ← drawChannel source
  return #v[c0, c1, c2, c3, c4, c5]

/-- A CPU row that keeps the constraints of the memory bus. -/
def drawCpuRow (index : Nat) : StateM σ (CpuRow Goldilocks) := do
  let isKernelMode ← drawBit source
  let context ← drawSmall source 16
  let isCycle ← drawBit source
  let opcode ← drawSmall source 256
  let channels ← drawChannels source
  return {
    isCycle
    isKernelMode
    context
    codeContext := if isKernelMode.isOne then 0 else context
    programCounter := .ofWord (.ofNat index)
    opcode
    channels }

/-- CPU rows numbered from one on. -/
def drawCpuRows : Nat → Nat → StateM σ (List (CpuRow Goldilocks))
  | _, 0 => return []
  | index, n + 1 => do
      let row ← drawCpuRow source index
      let rest ← drawCpuRows (index + 1) n
      return row :: rest

/-- A Memory payload with random values. -/
def drawPayload : StateM σ (List Goldilocks) := do
  let isRead ← drawBit source
  let context ← drawSmall source 16
  let segment ← drawSmall source 8
  let address ← drawSmall source 65536
  let value ← drawValue source
  return [isRead, context, segment, address, value]

/-- A Memory row that records nothing, of arbitrary contents. -/
def drawPadding : StateM σ (List Goldilocks) := do
  let values ← drawTimes (drawValue source) memoryWidth
  return values.set MemoryColumn.filter.index 0

/-- The Memory rows of the used channels of a CPU row. -/
def CpuRow.memoryRows (row : CpuRow Goldilocks) : List (List Goldilocks) :=
  (row.channels.toList.filter fun channel => channel.used.isOne).map fun channel =>
    1 :: channel.payload

/-- A sample with a number of CPU rows and of Memory rows without one. -/
def drawSample (cpuRows extraRows : Nat) : StateM σ (Except Violation Sample) := do
  let cpu ← drawCpuRows source 0 cpuRows
  let extra ← drawTimes (drawPayload source) extraRows
  let memory ← source.shuffle (cpu.flatMap CpuRow.memoryRows ++ extra.map (1 :: ·))
  let padding ← drawTimes (drawPadding source) 3
  return do
    let cpuTrace ← Trace.ofRows (cpu.map CpuRow.toList)
    let memoryTrace ← Trace.ofRows (memory ++ padding)
    return ⟨((PerTable.const .empty).set .cpu cpuTrace).set .memory memoryTrace, extra⟩

/-- The sample of a seed. -/
def seededSample (cpuRows extraRows : Nat) (seed : UInt64) : Except Violation Sample :=
  (drawSample MersenneTwister.source cpuRows extraRows (.ofSeed seed)).1

end CrossLookup.MemoryBus
