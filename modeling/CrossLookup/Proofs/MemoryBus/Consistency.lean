import CrossLookup.Proofs.Consistency
import CrossLookup.Proofs.MemoryBus.Sample

/-!
# Samples agree under the memory lookup

A memory channel of a CPU row stands in the columns that its side of the lookup
reads. The channels visited by column and then by row are those visited by row
and then by channel, so the rows looked up are the recorded Memory rows.
-/

namespace CrossLookup.MemoryBus

/-- Lists gathered over two ranges may be gathered in either order. -/
theorem perm_flatMap_comm {α β γ : Type} (as : List α) (bs : List β) (f : α → β → List γ) :
    (as.flatMap fun a => bs.flatMap (f a)).Perm (bs.flatMap fun b => as.flatMap (f · b)) := by
  induction as with
  | nil => simp
  | cons a rest ih =>
      simp only [List.flatMap_cons]
      apply List.Perm.trans _ (List.flatMap_append_perm bs (f a) fun b => rest.flatMap (f · b))
      exact ih.append_left _

theorem map_filter_eq_flatMap {α β : Type} (p : α → Bool) (f : α → β) (as : List α) :
    (as.filter p).map f = as.flatMap fun a => if p a then [f a] else [] := by
  induction as with
  | nil => rfl
  | cons a rest ih =>
      rw [List.filter_cons, List.flatMap_cons, ← ih]
      split
      · rfl
      · rfl

section Payloads

/-- The payload that a Memory row holds past its filter. -/
def recorded (row : List Goldilocks) : List Goldilocks :=
  [MemoryColumn.isRead, .context, .segment, .address, .value].map fun column =>
    row.getD column.index 0

theorem recorded_cons {payload : List Goldilocks} (h : payload.length = 5) (a : Goldilocks) :
    recorded (a :: payload) = payload := by
  match payload, h with
  | [_, _, _, _, _], _ => rfl

/-- The payloads of the used channels of a row. -/
def usedPayloads (row : CpuRow Goldilocks) : List (List Goldilocks) :=
  (row.channels.toList.filter fun channel => channel.used.isOne).map Channel.payload

theorem map_recorded_memoryRows (row : CpuRow Goldilocks) :
    row.memoryRows.map recorded = usedPayloads row := by
  rw [CpuRow.memoryRows, usedPayloads, List.map_map]
  exact List.map_congr_left fun channel _ => recorded_cons rfl 1

end Payloads

namespace SampleRows

variable (rows : SampleRows)

theorem get_cpu : rows.sample.traces.get .cpu =
    .transposed (rows.cpu.map CpuRow.toList) cpuWidth := by
  rw [SampleRows.sample, PerTable.get_set, if_neg (by decide), PerTable.get_set, if_pos rfl]

theorem get_memory : rows.sample.traces.get .memory =
    .transposed (rows.memory ++ rows.padding) memoryWidth := by
  rw [SampleRows.sample, PerTable.get_set, if_pos rfl]

theorem readsRows_channelSide (i : Fin 6) : (channelSide (.ofNat i)).ReadsRows rows.sample.traces
    (rows.cpu.map CpuRow.toList) cpuWidth (ChannelColumn.used.index (.ofNat i)).toNat
    ([.isRead, .context, .segment, .address, .value].map fun column : ChannelColumn =>
      (column.index (.ofNat i)).toNat) where
  trace_eq := rows.get_cpu
  columns_eq := rfl
  filter_eq := rfl
  filter_lt := index_lt_cpuWidth i .used
  columns_lt := List.forall_mem_map.mpr fun column _ => index_lt_cpuWidth i column

theorem readsRows_looked : memoryLookup.looked.ReadsRows rows.sample.traces
    (rows.memory ++ rows.padding) memoryWidth MemoryColumn.filter.index
    ([.isRead, .context, .segment, .address, .value].map MemoryColumn.index) where
  trace_eq := rows.get_memory
  columns_eq := rfl
  filter_eq := rfl
  filter_lt := by decide
  columns_lt := by decide

/-- A channel's side selects the payloads of the channel from the rows that use it. -/
theorem rows_channelSide (i : Fin 6) :
    (channelSide (.ofNat i)).rows rows.sample.traces =
      (rows.cpu.filter fun row => (row.channels.get i).used.isOne).map fun row =>
        (row.channels.get i).payload := by
  rw [(rows.readsRows_channelSide i).rows_eq, List.filter_map, List.map_map]
  simp only [Function.comp_def, getD_toList_index, List.map_cons, List.map_nil]
  rfl

/-- The Memory side selects the rows that record an operation and none of the padding. -/
theorem rows_looked : memoryLookup.looked.rows rows.sample.traces =
    rows.memory.map recorded := by
  have hmemory : rows.memory.filter (fun row => (row.getD MemoryColumn.filter.index 0).isOne) =
      rows.memory := by
    rw [List.filter_eq_self]
    intro row hrow
    obtain ⟨payload, _, rfl⟩ := rows.exists_payload_of_mem hrow
    rfl
  have hpadding : rows.padding.filter (fun row =>
      (row.getD MemoryColumn.filter.index 0).isOne) = [] := by
    rw [List.filter_eq_nil_iff]
    intro row hrow
    rw [(rows.padding_unused row hrow).2]
    decide
  rw [rows.readsRows_looked.rows_eq, List.filter_append, hmemory, hpadding, List.append_nil]
  rfl

/-- Gathered channel by channel, the used payloads are those gathered row by row. -/
theorem perm_looking : ((List.finRange 6).flatMap fun i : Fin 6 =>
      (channelSide (.ofNat i)).rows rows.sample.traces).Perm (rows.cpu.flatMap usedPayloads) := by
  have hrow : ∀ row : CpuRow Goldilocks, usedPayloads row = (List.finRange 6).flatMap fun i =>
      if (row.channels.get i).used.isOne then [(row.channels.get i).payload] else [] := by
    intro row
    rw [usedPayloads, map_filter_eq_flatMap, toList_channels, List.flatMap_map]
  simp only [rows_channelSide, map_filter_eq_flatMap]
  rw [funext hrow]
  exact perm_flatMap_comm _ _ _

/-- The used channels with the payloads fed in are the recorded Memory rows. -/
theorem perm_lookingRows :
    (memoryLookup.lookingRows rows.sample.traces rows.sample.outsideRows).Perm
      (memoryLookup.lookedRows rows.sample.traces) := by
  have houtside : rows.sample.outsideRows.get memoryLookup.looked.table = rows.extra := by
    rw [Sample.outsideRows, PerTable.get_set]
    exact if_pos rfl
  have hextra : (rows.extra.map (1 :: ·)).map recorded = rows.extra := by
    calc
      (rows.extra.map (1 :: ·)).map recorded = rows.extra.map fun payload =>
          recorded (1 :: payload) := List.map_map
      _ = rows.extra.map id :=
        List.map_congr_left fun payload h => recorded_cons (rows.length_extra payload h) 1
      _ = rows.extra := List.map_id _
  have hdrawn : (rows.memory.map recorded).Perm
      (rows.cpu.flatMap usedPayloads ++ rows.extra) := by
    have hmap := rows.memory_perm.map recorded
    rw [List.map_append, List.map_flatMap, hextra] at hmap
    simpa only [map_recorded_memoryRows] using hmap
  rw [Lookup.lookingRows, Lookup.lookedRows, rows_looked, houtside, looking_eq, List.flatMap_map]
  exact (rows.perm_looking.append_right _).trans hdrawn.symm

/-- Every side of the memory lookup can select from a sample. -/
theorem selectable : ∀ side ∈ memoryLookup.sides, side.Selectable rows.sample.traces := by
  rw [Lookup.sides, looking_eq, List.forall_mem_append, List.forall_mem_map,
    List.forall_mem_singleton]
  constructor
  · intro i _
    apply (rows.readsRows_channelSide i).selectable
    rw [List.forall_mem_map]
    intro row hrow
    rw [getD_toList_index]
    apply (rows.cpu_keeps row hrow).used_binary
    rw [toList_channels]
    exact List.mem_map_of_mem (List.mem_finRange i)
  · apply rows.readsRows_looked.selectable
    rw [List.forall_mem_append]
    constructor
    · intro row hrow
      obtain ⟨payload, _, rfl⟩ := rows.exists_payload_of_mem hrow
      exact Or.inr rfl
    · exact fun row hrow => Or.inl (rows.padding_unused row hrow).2

/-- A sample agrees under the memory lookup with the payloads that no CPU row looks up. -/
theorem consistent : memoryLookup.Consistent rows.sample.traces rows.sample.outsideRows where
  selectable := rows.selectable
  perm := rows.perm_lookingRows

end SampleRows

end CrossLookup.MemoryBus
