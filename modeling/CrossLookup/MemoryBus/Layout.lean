import CrossLookup.Violation

/-!
# Layout of the memory bus

The columns of the CPU table, with six memory channels of six columns each
after six fixed columns, and the columns of the Memory table.
-/

namespace CrossLookup.MemoryBus

/-- The memory channels of a CPU row: one for code and five for data. -/
def channelCount : Nat := 6

/-- The columns of one memory channel. -/
def channelWidth : Nat := 6

/-- The CPU columns before the memory channels. -/
def fixedWidth : Nat := 6

/-- The columns of the CPU table. -/
def cpuWidth : Nat := fixedWidth + channelCount * channelWidth

/-- The columns of the Memory table. -/
def memoryWidth : Nat := 6

/-- The columns of a memory channel, in order. -/
inductive ChannelColumn
  | used
  | isRead
  | context
  | segment
  | address
  | value
deriving DecidableEq, Repr

/-- The place of a column in its channel. -/
def ChannelColumn.offset : ChannelColumn → Nat
  | used => 0
  | isRead => 1
  | context => 2
  | segment => 3
  | address => 4
  | value => 5

/-- The CPU column of a channel's column; columns are numbered in words. -/
def ChannelColumn.index (channel : UInt64) (column : ChannelColumn) : UInt64 :=
  .ofNat fixedWidth + channel * .ofNat channelWidth + .ofNat column.offset

theorem ChannelColumn.toNat_index (channel : UInt64) (column : ChannelColumn)
    (h : channel.toNat < channelCount) :
    (index channel column).toNat = fixedWidth + channel.toNat * channelWidth + column.offset := by
  have hc : channel.toNat < 6 := h
  cases column <;>
    simp [index, fixedWidth, channelWidth, offset, UInt64.toNat_add, UInt64.toNat_mul] <;>
    omega

/-- The columns of the Memory table, in order. -/
inductive MemoryColumn
  | filter
  | isRead
  | context
  | segment
  | address
  | value
deriving DecidableEq, Repr

/-- The place of a column in the Memory table. -/
def MemoryColumn.index : MemoryColumn → Nat
  | filter => 0
  | isRead => 1
  | context => 2
  | segment => 3
  | address => 4
  | value => 5

/-- The values of one memory channel. -/
structure Channel (V : Type) where
  used : V
  isRead : V
  context : V
  segment : V
  address : V
  value : V
deriving DecidableEq

/-- The values of a CPU row by name. -/
structure CpuRow (V : Type) where
  isCycle : V
  isKernelMode : V
  context : V
  codeContext : V
  programCounter : V
  opcode : V
  channels : Vector (Channel V) 6
deriving DecidableEq

variable {V : Type}

/-- The values of a channel in column order. -/
def Channel.toList (c : Channel V) : List V :=
  [c.used, c.isRead, c.context, c.segment, c.address, c.value]

/-- What a channel looks up: its values but the first. -/
def Channel.payload (c : Channel V) : List V :=
  [c.isRead, c.context, c.segment, c.address, c.value]

namespace CpuRow

/-- The values of a row in column order. -/
def toList (row : CpuRow V) : List V :=
  [row.isCycle, row.isKernelMode, row.context, row.codeContext, row.programCounter,
    row.opcode] ++ row.channels.toList.flatMap Channel.toList

/-- The channel whose columns start at an index. -/
def channelAt (row : Array V) (start : Nat) (h : start + 5 < row.size) : Channel V where
  used := row[start]
  isRead := row[start + 1]
  context := row[start + 2]
  segment := row[start + 3]
  address := row[start + 4]
  value := row[start + 5]

/-- Name the values of a row that has one value per CPU column. -/
def ofRow (row : Array V) : Except Violation (CpuRow V) :=
  if h : row.size = 42 then
    .ok {
      isCycle := row[0]
      isKernelMode := row[1]
      context := row[2]
      codeContext := row[3]
      programCounter := row[4]
      opcode := row[5]
      channels := Vector.ofFn fun channel : Fin 6 =>
        channelAt row (6 + channel * 6) (by omega) }
  else
    .error .cpuRowWidth

end CpuRow

end CrossLookup.MemoryBus
