import CrossLookup.MemoryBus.Lookup
import Mathlib.Data.List.FinRange
import Mathlib.Data.List.GetD

/-!
# Where the values of a CPU row stand

The columns numbered for a memory channel are those that hold the values of the
channel, in a row laid out by value as in a row whose values are named.
-/

namespace CrossLookup.MemoryBus

/-- The value of a channel in a column. -/
def Channel.valueAt {V : Type} (channel : Channel V) : ChannelColumn → V
  | .used => channel.used
  | .isRead => channel.isRead
  | .context => channel.context
  | .segment => channel.segment
  | .address => channel.address
  | .value => channel.value

theorem Channel.ext_valueAt {V : Type} {channel channel' : Channel V}
    (h : ∀ column, channel.valueAt column = channel'.valueAt column) : channel = channel' := by
  cases channel
  rw [Channel.mk.injEq]
  exact ⟨h .used, h .isRead, h .context, h .segment, h .address, h .value⟩

section Numbers

theorem toNat_ofNat_channel (i : Fin 6) : (UInt64.ofNat i).toNat = i :=
  UInt64.toNat_ofNat_of_lt' (i.isLt.trans (by decide))

theorem toNat_index_channel (i : Fin 6) (column : ChannelColumn) :
    (column.index (.ofNat i)).toNat = fixedWidth + (i * channelWidth + column.offset) := by
  rw [ChannelColumn.toNat_index, toNat_ofNat_channel, Nat.add_assoc]
  rw [toNat_ofNat_channel]
  exact i.isLt

theorem index_lt_cpuWidth (i : Fin 6) (column : ChannelColumn) :
    (column.index (.ofNat i)).toNat < cpuWidth := by
  have hoffset : column.offset < channelWidth := by cases column <;> decide
  rw [toNat_index_channel, cpuWidth]
  unfold channelCount channelWidth at *
  omega

theorem looking_eq : memoryLookup.looking =
    (List.finRange 6).map fun i : Fin 6 => channelSide (.ofNat i) := by
  rfl

end Numbers

section Rows

theorem toList_channels (channels : Vector (Channel Goldilocks) 6) :
    channels.toList = (List.finRange 6).map channels.get := by
  apply List.ext_getElem
  · rw [Vector.length_toList, List.length_map, List.length_finRange]
  · intro i hi hi'
    rw [List.getElem_map, List.getElem_finRange, Vector.getElem_toList]
    rfl

theorem length_toList (row : CpuRow Goldilocks) : row.toList.length = cpuWidth := by
  have hchannels : (row.channels.toList.flatMap Channel.toList).length =
      channelCount * channelWidth := by
    rw [List.length_flatMap]
    change (row.channels.toList.map fun _ => channelWidth).sum = _
    rw [List.map_const', List.sum_replicate_nat, Vector.length_toList]
    rfl
  rw [CpuRow.toList, List.length_append, hchannels]
  rfl

theorem getD_flatMap_toList {channels : List (Channel Goldilocks)} {i : Nat}
    {channel : Channel Goldilocks} (h : channels[i]? = some channel) (column : ChannelColumn) :
    (channels.flatMap Channel.toList).getD (i * channelWidth + column.offset) 0 =
      channel.valueAt column := by
  induction channels generalizing i with
  | nil => cases h
  | cons first rest ih =>
      cases i with
      | zero =>
          cases h
          cases column <;> rfl
      | succ i =>
          have hplace : (i + 1) * channelWidth + column.offset =
              first.toList.length + (i * channelWidth + column.offset) := by
            rw [Nat.succ_mul, Nat.add_comm _ channelWidth, Nat.add_assoc]
            rfl
          rw [List.flatMap_cons, hplace, List.getD_append_right _ _ _ _ (Nat.le_add_right _ _),
            Nat.add_sub_cancel_left]
          exact ih h

/-- The columns of a channel in a row hold the values of the channel. -/
theorem getD_toList_index (row : CpuRow Goldilocks) (i : Fin 6) (column : ChannelColumn) :
    row.toList.getD (column.index (.ofNat i)).toNat 0 = (row.channels.get i).valueAt column := by
  have hchannel : row.channels.toList[(i : Nat)]? = some (row.channels.get i) := by
    rw [toList_channels, List.getElem?_map, List.getElem?_eq_getElem (by simp),
      List.getElem_finRange]
    rfl
  rw [toNat_index_channel, CpuRow.toList,
    List.getD_append_right _ _ _ _ (Nat.le_add_right fixedWidth _)]
  have hskip : fixedWidth + (i * channelWidth + column.offset) - fixedWidth =
      i * channelWidth + column.offset := Nat.add_sub_cancel_left _ _
  exact (congrArg (fun place => (row.channels.toList.flatMap Channel.toList).getD place 0)
    hskip).trans (getD_flatMap_toList hchannel column)

/-- Only a row with a value for each column is named. -/
theorem size_of_ofRow {V : Type} {values : Array V} {row : CpuRow V}
    (h : CpuRow.ofRow values = .ok row) : values.size = cpuWidth := by
  by_contra hwidth
  have hsize : ¬values.size = 42 := hwidth
  rw [CpuRow.ofRow, dif_neg hsize] at h
  cases h

/-- A row whose values are named has them at the columns of the channels. -/
theorem valueAt_ofRow {values : Array Goldilocks} {row : CpuRow Goldilocks}
    (h : CpuRow.ofRow values = .ok row) (i : Fin 6) (column : ChannelColumn) :
    (row.channels.get i).valueAt column = values.getD (column.index (.ofNat i)).toNat 0 := by
  have hsize : values.size = 42 := size_of_ofRow h
  rw [CpuRow.ofRow, dif_pos hsize] at h
  obtain rfl := Except.ok.inj h
  have hplace : (column.index (.ofNat i)).toNat = 6 + i * 6 + column.offset := by
    rw [toNat_index_channel, ← Nat.add_assoc]
    rfl
  have hlt : 6 + i * 6 + column.offset < values.size := by
    rw [hsize, ← hplace]
    exact index_lt_cpuWidth i column
  have hchannel (channels : Fin 6 → Channel Goldilocks) :
      (Vector.ofFn channels).get i = channels i := Vector.getElem_ofFn i.isLt
  rw [hplace, ← Array.getElem_eq_getD (h := hlt), hchannel]
  cases column <;> rfl

/-- A row is read back from its values in column order. -/
theorem ofRow_toList (row : CpuRow Goldilocks) : CpuRow.ofRow row.toList.toArray = .ok row := by
  have hsize : row.toList.toArray.size = 42 := length_toList row
  have hok : CpuRow.ofRow row.toList.toArray = .ok _ := dif_pos hsize
  have hchannels : (Vector.ofFn fun i : Fin 6 =>
      CpuRow.channelAt row.toList.toArray (6 + i * 6) (by omega)) = row.channels := by
    apply Vector.ext
    intro i hi
    apply Channel.ext_valueAt
    intro column
    have hcolumn := valueAt_ofRow hok ⟨i, hi⟩ column
    rw [Array.getD_eq_getD_getElem?, List.getElem?_toArray, ← List.getD_eq_getElem?_getD,
      getD_toList_index] at hcolumn
    exact hcolumn
  rw [hok, hchannels]
  rfl

end Rows

end CrossLookup.MemoryBus
