import CrossLookup.MemoryBus.Sample
import CrossLookup.Proofs.MemoryBus.Constraints
import CrossLookup.Proofs.MemoryBus.Layout
import CrossLookup.Proofs.Random.Draws
import CrossLookup.Proofs.Transposition

/-!
# What a memory-bus sample consists of

Whatever words a source gives, the CPU rows of a sample keep the constraints of
the memory bus, its Memory rows are those of the used channels and those without
a CPU row in some order, and its padding records nothing.
-/

namespace CrossLookup.MemoryBus

/-- The rows of a sample. -/
structure SampleRows where
  cpu : List (CpuRow Goldilocks)
  /-- The payloads without a CPU row. -/
  extra : List (List Goldilocks)
  memory : List (List Goldilocks)
  padding : List (List Goldilocks)
  cpu_ne_nil : cpu ≠ []
  cpu_keeps : ∀ row ∈ cpu, row.Keeps
  length_extra : ∀ payload ∈ extra, payload.length = 5
  memory_perm : memory.Perm (cpu.flatMap CpuRow.memoryRows ++ extra.map (1 :: ·))
  padding_ne_nil : padding ≠ []
  padding_unused : ∀ row ∈ padding,
    row.length = memoryWidth ∧ row.getD MemoryColumn.filter.index 0 = 0

/-- The sample with some rows. -/
def SampleRows.sample (rows : SampleRows) : Sample where
  traces := ((PerTable.const .empty).set .cpu
    (.transposed (rows.cpu.map CpuRow.toList) cpuWidth)).set .memory
      (.transposed (rows.memory ++ rows.padding) memoryWidth)
  extraRows := rows.extra

section Widths

/-- A Memory row that records an operation is its payload under a filter of one. -/
theorem SampleRows.exists_payload_of_mem (rows : SampleRows) {row : List Goldilocks}
    (hrow : row ∈ rows.memory) : ∃ payload, payload.length = 5 ∧ row = 1 :: payload := by
  rcases List.mem_append.mp (rows.memory_perm.mem_iff.mp hrow) with hcpu | hextra
  · obtain ⟨cpuRow, _, hmemory⟩ := List.mem_flatMap.mp hcpu
    obtain ⟨channel, _, rfl⟩ := List.mem_map.mp hmemory
    exact ⟨channel.payload, rfl, rfl⟩
  · obtain ⟨payload, hpayload, rfl⟩ := List.mem_map.mp hextra
    exact ⟨payload, rows.length_extra payload hpayload, rfl⟩

theorem SampleRows.ofRows_cpu (rows : SampleRows) :
    Trace.ofRows (rows.cpu.map CpuRow.toList) =
      .ok (.transposed (rows.cpu.map CpuRow.toList) cpuWidth) := by
  apply Trace.ofRows_eq_ok
  · exact mt List.map_eq_nil_iff.mp rows.cpu_ne_nil
  · exact List.forall_mem_map.mpr fun row _ => length_toList row

theorem SampleRows.ofRows_memory (rows : SampleRows) :
    Trace.ofRows (rows.memory ++ rows.padding) =
      .ok (.transposed (rows.memory ++ rows.padding) memoryWidth) := by
  apply Trace.ofRows_eq_ok
  · exact List.append_ne_nil_of_right_ne_nil _ rows.padding_ne_nil
  · rw [List.forall_mem_append]
    constructor
    · intro row hrow
      obtain ⟨payload, hlength, rfl⟩ := rows.exists_payload_of_mem hrow
      exact congrArg Nat.succ hlength
    · exact fun row hrow => (rows.padding_unused row hrow).1

end Widths

section Draws

variable {σ : Type} (source : RandomSource σ)

theorem drawBit_binary : Always (drawBit source) fun bit => bit = 0 ∨ bit = 1 := by
  refine (Always.any _).bind fun word _ => Always.pure ?_
  have hbit : word &&& 1 = 0 ∨ word &&& 1 = 1 := by
    rw [← UInt64.toNat_inj, ← UInt64.toNat_inj, UInt64.toNat_and]
    have hmod : word.toNat &&& (1 : UInt64).toNat = word.toNat % 2 := Nat.and_one_is_mod _
    rw [hmod]
    exact Nat.mod_two_eq_zero_or_one word.toNat
  rcases hbit with hbit | hbit
  · rw [hbit]
    exact Or.inl rfl
  · rw [hbit]
    exact Or.inr rfl

theorem drawChannel_binary :
    Always (drawChannel source) fun channel => channel.used = 0 ∨ channel.used = 1 := by
  refine (drawBit_binary source).bind fun used hused => ?_
  refine (Always.any _).bind fun isRead _ => (Always.any _).bind fun context _ => ?_
  refine (Always.any _).bind fun segment _ => (Always.any _).bind fun address _ => ?_
  exact (Always.any _).bind fun value _ => Always.pure hused

theorem drawChannels_binary : Always (drawChannels source) fun channels =>
    ∀ channel ∈ channels.toList, channel.used = 0 ∨ channel.used = 1 := by
  have hdraw := drawChannel_binary source
  refine hdraw.bind fun c0 h0 => hdraw.bind fun c1 h1 => hdraw.bind fun c2 h2 => ?_
  refine hdraw.bind fun c3 h3 => hdraw.bind fun c4 h4 => hdraw.bind fun c5 h5 => ?_
  apply Always.pure
  intro channel hchannel
  have hcases : channel ∈ [c0, c1, c2, c3, c4, c5] := hchannel
  simp only [List.mem_cons, List.not_mem_nil, or_false] at hcases
  rcases hcases with rfl | rfl | rfl | rfl | rfl | rfl
  all_goals assumption

theorem drawCpuRow_keeps (index : Nat) : Always (drawCpuRow source index) CpuRow.Keeps := by
  refine (drawBit_binary source).bind fun isKernelMode hkernel => ?_
  refine (Always.any _).bind fun context _ => (Always.any _).bind fun isCycle _ => ?_
  refine (Always.any _).bind fun opcode _ => ?_
  refine (drawChannels_binary source).bind fun channels hchannels => Always.pure ⟨?_, hchannels⟩
  rcases hkernel with rfl | rfl
  · have hzero : (0 : Goldilocks).isOne = false := by decide
    simp only [hzero, Bool.false_eq_true, if_false, sub_zero, one_mul]
  · simp only [Goldilocks.isOne_iff.mpr rfl, if_true, sub_self, zero_mul]

theorem drawCpuRows_keep (index n : Nat) : Always (drawCpuRows source index n) fun rows =>
    rows.length = n ∧ ∀ row ∈ rows, row.Keeps := by
  induction n generalizing index with
  | zero => exact Always.pure ⟨rfl, List.forall_mem_nil _⟩
  | succ n ih =>
      refine (drawCpuRow_keeps source index).bind fun row hrow => ?_
      refine (ih (index + 1)).bind fun rest hrest => Always.pure ⟨?_, ?_⟩
      · exact congrArg Nat.succ hrest.1
      · exact List.forall_mem_cons.mpr ⟨hrow, hrest.2⟩

theorem drawTimes_always {α : Type} {draw : StateM σ α} {p : α → Prop} (h : Always draw p)
    (n : Nat) : Always (drawTimes draw n) fun as => as.length = n ∧ ∀ a ∈ as, p a := by
  induction n with
  | zero => exact Always.pure ⟨rfl, List.forall_mem_nil _⟩
  | succ n ih =>
      refine h.bind fun a ha => ih.bind fun rest hrest => Always.pure ⟨?_, ?_⟩
      · exact congrArg Nat.succ hrest.1
      · exact List.forall_mem_cons.mpr ⟨ha, hrest.2⟩

theorem length_drawPayload : Always (drawPayload source) fun payload => payload.length = 5 := by
  refine (Always.any _).bind fun isRead _ => (Always.any _).bind fun context _ => ?_
  refine (Always.any _).bind fun segment _ => (Always.any _).bind fun address _ => ?_
  exact (Always.any _).bind fun value _ => Always.pure rfl

theorem drawPadding_unused : Always (drawPadding source) fun row =>
    row.length = memoryWidth ∧ row.getD MemoryColumn.filter.index 0 = 0 := by
  refine (drawTimes_always (Always.any _) memoryWidth).bind fun values hvalues => ?_
  apply Always.pure
  constructor
  · rw [List.length_set, hvalues.1]
  · have hfilter : MemoryColumn.filter.index < values.length := by
      rw [hvalues.1]
      decide
    rw [List.getD_eq_getElem?_getD, List.getElem?_set_self hfilter]
    rfl

/-- Every sample is drawn from CPU rows that keep the constraints, with their Memory rows. -/
theorem drawSample_rows (hshuffle : source.Permutes) {cpuRows : Nat} (hrows : 0 < cpuRows)
    (extraRows : Nat) : Always (drawSample source cpuRows extraRows) fun result =>
      ∃ rows : SampleRows, rows.cpu.length = cpuRows ∧ rows.extra.length = extraRows ∧
        result = .ok rows.sample := by
  refine (drawCpuRows_keep source 0 cpuRows).bind fun cpu hcpu => ?_
  refine (drawTimes_always (length_drawPayload source) extraRows).bind fun extra hextra => ?_
  refine (hshuffle _).bind fun memory hmemory => ?_
  refine (drawTimes_always (drawPadding_unused source) 3).bind fun padding hpadding => ?_
  apply Always.pure
  let rows : SampleRows := {
    cpu, extra, memory, padding
    cpu_ne_nil := by
      rw [← List.length_pos_iff, hcpu.1]
      exact hrows
    cpu_keeps := hcpu.2
    length_extra := hextra.2
    memory_perm := hmemory
    padding_ne_nil := by
      rw [← List.length_pos_iff, hpadding.1]
      exact Nat.zero_lt_succ 2
    padding_unused := hpadding.2 }
  refine ⟨rows, hcpu.1, hextra.1, ?_⟩
  rw [rows.ofRows_cpu, rows.ofRows_memory]
  rfl

end Draws

end CrossLookup.MemoryBus
