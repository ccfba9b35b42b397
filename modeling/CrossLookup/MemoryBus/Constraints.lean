import CrossLookup.Circuit.Accumulator
import CrossLookup.MemoryBus.Layout

/-!
# Constraints of the memory bus

On every CPU row the code context is zero in kernel mode and the context
otherwise, and the flag that a channel is used is zero or one.
-/

namespace CrossLookup.MemoryBus

/-- Fold in the constraints of a CPU row. -/
def constrain {V : Type} [BaseAlgebra V] (row : CpuRow V) (acc : Accumulator V) :
    Accumulator V :=
  let acc := acc.emit .every (row.codeContext - (1 - row.isKernelMode) * row.context)
  row.channels.toList.foldl (fun acc channel =>
    acc.emit .every (channel.used * (channel.used - 1))) acc

/-- Fold in the constraints of a CPU row of wires. -/
def constrainCircuit (row : CpuRow CubicWire) (acc : CircuitAccumulator) :
    Build CircuitAccumulator := do
  let difference ← Build.subCubic row.context row.codeContext
  let residual ← Build.mulSubCubic row.isKernelMode row.context difference
  let acc ← acc.emit .every residual
  row.channels.toList.foldlM (fun acc channel => do
    let residual ← Build.mulSubCubic channel.used channel.used channel.used
    acc.emit .every residual) acc

end CrossLookup.MemoryBus
