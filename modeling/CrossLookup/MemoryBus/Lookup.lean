import CrossLookup.Lookup
import CrossLookup.MemoryBus.Layout

/-!
# The lookup of the memory bus

Every used CPU memory channel is a row of the Memory table.
-/

namespace CrossLookup.MemoryBus

/-- A column of a memory channel. -/
def channelColumn (channel : UInt64) (column : ChannelColumn) : Column :=
  .single (column.index channel).toNat

/-- The columns that a memory channel looks up. -/
def channelColumns (channel : UInt64) : List Column :=
  [.isRead, .context, .segment, .address, .value].map (channelColumn channel)

/-- Whether a memory channel is used. -/
def channelFilter (channel : UInt64) : Column :=
  channelColumn channel .used

/-- The columns of the Memory table that are looked up. -/
def memoryColumns : List Column :=
  Column.singles ([.isRead, .context, .segment, .address, .value].map MemoryColumn.index)

/-- Whether a row of the Memory table records an operation. -/
def memoryFilter : Column :=
  .single MemoryColumn.filter.index

/-- The side of a memory channel. -/
def channelSide (channel : UInt64) : Side :=
  ⟨.cpu, channelColumns channel, some (channelFilter channel)⟩

/-- Every memory channel looks into the Memory table. -/
def memoryLookup : Lookup where
  looking := (List.range channelCount).map fun channel => channelSide (.ofNat channel)
  looked := ⟨.memory, memoryColumns, some memoryFilter⟩
  width_eq := by
    simp [channelSide, channelColumns, memoryColumns, Column.singles]

end CrossLookup.MemoryBus
