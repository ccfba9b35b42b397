import CrossLookup.Proofs.Constraint.RunningProduct
import CrossLookup.Proofs.MemoryBus.Constraints

/-!
# The memory bus keeps its filters binary

The looking sides of the memory lookup are filtered by the used flags of the
channels, which the constraints of the memory bus pin to zero and one. Where
the constraints hold, the products of the CPU table are built, and only the
Memory table can refuse its own.
-/

namespace CrossLookup.MemoryBus

variable {traces : PerTable Trace}

/-- The filter of a channel's side reads the flag that the channel is used. -/
theorem filterValue_channelFilter {trace : Trace} {r : Nat} {row : CpuRow Goldilocks}
    (h : CpuRow.ofRow (trace.row r) = .ok row) (i : Fin 6) :
    filterValue (some (channelFilter (.ofNat i))) trace r = (row.channels.get i).used := by
  rw [filterValue, channelFilter, channelColumn, evalTrace_single, ← Trace.getD_row]
  exact (valueAt_ofRow h i .used).symm

/-- On a trace whose rows keep the constraints the channels select or leave out every row. -/
theorem binaryFilter_channelFilter {trace : Trace}
    (h : ∀ r < trace.height, ∃ row, CpuRow.ofRow (trace.row r) = .ok row ∧ row.Keeps)
    (i : Fin 6) : BinaryFilter (some (channelFilter (.ofNat i))) trace := by
  intro r hr
  obtain ⟨row, hrow, hkeeps⟩ := h r hr
  rw [filterValue_channelFilter hrow]
  apply hkeeps.used_binary
  rw [toList_channels]
  exact List.mem_map_of_mem (List.mem_finRange i)

/-- The sides of the memory lookup are those of the channels and the Memory side. -/
theorem channel_or_looked {side : Side} (hside : side ∈ memoryLookup.sides) :
    (∃ i : Fin 6, channelSide (.ofNat i) = side) ∨ side = memoryLookup.looked := by
  rcases List.mem_append.mp hside with hlooking | hlooked
  · rw [looking_eq] at hlooking
    obtain ⟨i, _, hchannel⟩ := List.mem_map.mp hlooking
    exact Or.inl ⟨i, hchannel⟩
  · exact Or.inr (List.mem_singleton.mp hlooked)

theorem mem_sides_of_mem_schedule {challenges : ChallengeSet Goldilocks} :
    ∀ entry ∈ schedule [memoryLookup] challenges, entry.1 ∈ memoryLookup.sides := by
  rw [forall_mem_schedule, List.forall_mem_singleton]
  exact fun _ _ _ hside => hside

section Products

variable (hkeeps : ∀ r < (traces.get .cpu).height, ∃ row,
  CpuRow.ofRow ((traces.get .cpu).row r) = .ok row ∧ row.Keeps)

include hkeeps

/-- Where its rows keep the constraints, a CPU table with columns has the products it owes. -/
theorem exists_sideProduct_cpu (hcolumns : (traces.get .cpu).isEmpty = false) {side : Side}
    (hside : side ∈ memoryLookup.sides) (htable : side.table = .cpu)
    (challenge : Challenge Goldilocks) :
    ∃ product, sideProduct traces (side, challenge) = .ok product := by
  have hselectable : side.Selectable traces := by
    rcases channel_or_looked hside with ⟨i, hchannel⟩ | hlooked
    · rw [← hchannel]
      exact ⟨hcolumns, binaryFilter_channelFilter hkeeps i⟩
    · rw [hlooked] at htable
      cases htable
  exact ⟨_, sideProduct_of_selectable challenge hselectable⟩

/-- No row of a CPU table that keeps the constraints has a filter to be refused for. -/
theorem sideProduct_cpu_ne_nonBinaryFilter {side : Side} (hside : side ∈ memoryLookup.sides)
    (htable : side.table = .cpu) (challenge : Challenge Goldilocks) :
    sideProduct traces (side, challenge) ≠ .error .nonBinaryFilter := by
  intro herror
  cases hcolumns : (traces.get .cpu).isEmpty with
  | true =>
      have hrefused : sideProduct traces (side, challenge) = .error .productWithoutColumns := by
        simp only [sideProduct, runningProduct, htable, hcolumns, if_true]
        rfl
      rw [hrefused] at herror
      cases herror
  | false =>
      obtain ⟨product, hproduct⟩ := exists_sideProduct_cpu hkeeps hcolumns hside htable challenge
      rw [hproduct] at herror
      cases herror

/-- What ends the construction of the products is then a product of the Memory table. -/
theorem memory_of_lookupProducts_eq_error (hcolumns : (traces.get .cpu).isEmpty = false)
    {challenges : ChallengeSet Goldilocks} {e : Violation}
    (h : lookupProducts traces [memoryLookup] challenges = .error e) :
    ∃ entry ∈ schedule [memoryLookup] challenges,
      entry.1.table = .memory ∧ sideProduct traces entry = .error e := by
  rcases Except.bind_eq_error_iff.mp h with hproducts | ⟨_, _, h⟩
  · obtain ⟨entry, hentry, herror⟩ := Except.exists_error_of_mapM_eq_error hproducts
    have hside := mem_sides_of_mem_schedule entry hentry
    refine ⟨entry, hentry, ?_, herror⟩
    rcases channel_or_looked hside with ⟨i, hchannel⟩ | hlooked
    · have htable : entry.1.table = .cpu := congrArg Side.table hchannel.symm
      obtain ⟨product, hproduct⟩ := exists_sideProduct_cpu hkeeps hcolumns hside htable entry.2
      rw [hproduct] at herror
      cases herror
    · rw [hlooked]
      rfl
  · cases h

end Products

/-- A CPU trace on whose rows the constraints of the memory bus fold to zero, for more different
alphas than there are channels, keeps the constraints on every row. Then no challenge has the
product of a channel refused for a filter. If the trace has columns, no product of a channel is
refused at all, and what ends the construction of the products is one of the Memory table. -/
theorem cpu_products_of_constrained {alphas : List Goldilocks}
    (halphas : channelCount + 1 ≤ alphas.toFinset.card)
    (hconstrained : ∀ r < (traces.get .cpu).height, ∃ row,
      CpuRow.ofRow ((traces.get .cpu).row r) = .ok row ∧
        ∃ selectors, (constrain row (.start alphas selectors)).allZero = true) :
    (∀ r < (traces.get .cpu).height, ∃ row,
      CpuRow.ofRow ((traces.get .cpu).row r) = .ok row ∧
        row.codeContext = (1 - row.isKernelMode) * row.context ∧
          ∀ channel ∈ row.channels.toList, channel.used = 0 ∨ channel.used = 1) ∧
    (∀ side ∈ memoryLookup.sides, side.table = .cpu → ∀ challenge,
      sideProduct traces (side, challenge) ≠ .error .nonBinaryFilter) ∧
    ((traces.get .cpu).isEmpty = false → ∀ challenges,
      (∀ entry ∈ schedule [memoryLookup] challenges, entry.1.table = .cpu →
        ∃ product, sideProduct traces entry = .ok product) ∧
      ∀ e, lookupProducts traces [memoryLookup] challenges = .error e →
        ∃ entry ∈ schedule [memoryLookup] challenges,
          entry.1.table = .memory ∧ sideProduct traces entry = .error e) := by
  have hkeeps : ∀ r < (traces.get .cpu).height, ∃ row,
      CpuRow.ofRow ((traces.get .cpu).row r) = .ok row ∧ row.Keeps := by
    intro r hr
    obtain ⟨row, hrow, selectors, hzero⟩ := hconstrained r hr
    exact ⟨row, hrow, keeps_of_allZero_constrain halphas hzero⟩
  refine ⟨?_, ?_, ?_⟩
  · intro r hr
    obtain ⟨row, hrow, h⟩ := hkeeps r hr
    exact ⟨row, hrow, h.codeContext_eq, h.used_binary⟩
  · exact fun side => sideProduct_cpu_ne_nonBinaryFilter hkeeps
  · intro hcolumns challenges
    constructor
    · intro entry hentry htable
      have hside := mem_sides_of_mem_schedule entry hentry
      exact exists_sideProduct_cpu hkeeps hcolumns hside htable entry.2
    · exact fun e he => memory_of_lookupProducts_eq_error hkeeps hcolumns he

/-- A CPU row of context five with every second channel used. -/
def halfUsed (isKernelMode codeContext : Goldilocks) : CpuRow Goldilocks where
  isCycle := 1
  isKernelMode
  context := .ofWord 5
  codeContext
  programCounter := .ofWord 3
  opcode := .ofWord 2
  channels := Vector.ofFn fun i =>
    ⟨indicator (i % 2 = 0), 1, .ofWord 5, 0, .ofWord 7, .ofWord 9⟩

/-- A table of one row in user mode and one in kernel mode. -/
def twoModes : PerTable Trace :=
  (PerTable.const .empty).set .cpu (.transposed
    ([halfUsed 0 (.ofWord 5), halfUsed 1 0].map CpuRow.toList) cpuWidth)

theorem get_twoModes : twoModes.get .cpu = .transposed
    ([halfUsed 0 (.ofWord 5), halfUsed 1 0].map CpuRow.toList) cpuWidth := by
  rw [twoModes, PerTable.get_set]
  exact if_pos rfl

theorem halfUsed_keeps {isKernelMode codeContext : Goldilocks}
    (h : codeContext = (1 - isKernelMode) * .ofWord 5) :
    (halfUsed isKernelMode codeContext).Keeps where
  codeContext_eq := h
  used_binary := by
    rw [toList_channels, List.forall_mem_map]
    intro i _
    have hused : ((halfUsed isKernelMode codeContext).channels.get i).used =
        indicator (i % 2 = 0) :=
      congrArg Channel.used (Vector.getElem_ofFn i.isLt)
    rw [hused, indicator]
    split
    · exact Or.inr rfl
    · exact Or.inl rfl

/-- Both modes under seven alphas: every channel has its product, whatever the challenges. -/
theorem cpu_products_of_twoModes :
    let alphas : List Goldilocks := [1, 2, 3, 4, 5, 6, 7].map Goldilocks.ofWord
    channelCount + 1 ≤ alphas.toFinset.card ∧ (twoModes.get .cpu).height = 2 ∧
    (∀ r < (twoModes.get .cpu).height, ∃ row,
      CpuRow.ofRow ((twoModes.get .cpu).row r) = .ok row ∧
        ∃ selectors, (constrain row (.start alphas selectors)).allZero = true) ∧
    ∀ challenges, ∀ entry ∈ schedule [memoryLookup] challenges, entry.1.table = .cpu →
      ∃ product, sideProduct twoModes entry = .ok product := by
  intro alphas
  have halphas : channelCount + 1 ≤ alphas.toFinset.card := by decide
  have hconstrained : ∀ r < (twoModes.get .cpu).height, ∃ row,
      CpuRow.ofRow ((twoModes.get .cpu).row r) = .ok row ∧
        ∃ selectors, (constrain row (.start alphas selectors)).allZero = true := by
    have hkeeps : ∀ row ∈ [halfUsed 0 (.ofWord 5), halfUsed 1 0], row.Keeps := by
      rw [List.forall_mem_cons, List.forall_mem_singleton]
      exact ⟨halfUsed_keeps (by decide), halfUsed_keeps (by decide)⟩
    rw [get_twoModes]
    intro r hr
    obtain ⟨row, hrow, hzero⟩ := constrained_transposed hkeeps alphas r hr
    exact ⟨row, hrow, .ofRow r 2, hzero _⟩
  have hcolumns : (twoModes.get .cpu).isEmpty = false := by
    rw [get_twoModes]
    exact Trace.isEmpty_transposed (by decide)
  have hheight : (twoModes.get .cpu).height = 2 := by
    rw [get_twoModes]
    exact Trace.height_transposed (by decide)
  exact ⟨halphas, hheight, hconstrained, fun challenges =>
    ((cpu_products_of_constrained halphas hconstrained).2.2 hcolumns challenges).1⟩

end CrossLookup.MemoryBus
