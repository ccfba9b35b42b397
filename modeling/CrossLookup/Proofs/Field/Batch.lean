import CrossLookup.Field.Batch
import CrossLookup.Proofs.Field.Lanes

/-!
# Batches store the results of the scalar operations

Groups of four elements and the rest after them are stored from the front. Past
what is stored the destination is as it was, so an operand that is the
destination itself is still read as it was given.
-/

namespace CrossLookup

namespace Kernel

/-- The vector form, if there is one, is the scalar form in every lane. -/
def Lanewise (k : Kernel) : Prop :=
  ∀ four ∈ k.vector, ∀ a b i, (four a b).lane i = k.scalar (a.lane i) (b.lane i)

theorem lanewise_add : add.Lanewise := by
  rintro four ⟨⟩ a b i
  exact Lanes.lane_add i a b

theorem lanewise_sub : sub.Lanewise := by
  rintro four ⟨⟩ a b i
  exact Lanes.lane_sub i a b

theorem lanewise_of_none {k : Kernel} (h : k.vector = none) : k.Lanewise := by
  intro four hfour
  rw [h] at hfour
  cases hfour

theorem load_eq_getElem {a : Array Goldilocks} {i : Nat} (h : i < a.size) : load a i = a[i] :=
  (Array.getElem_eq_getD (h := h) 0).symm

theorem lane_loadFour (a : Array Goldilocks) (n : Nat) (i : Fin 4) :
    (loadFour a n).lane i = load a (n + i) :=
  Vector.getElem_ofFn i.isLt

/-- The results for the first elements of two arrays, stored over a third. -/
structure Stored (op : Goldilocks → Goldilocks → Goldilocks) (a b before : Array Goldilocks)
    (count : Nat) (after : Array Goldilocks) : Prop where
  size_eq : after.size = before.size
  results : ∀ i < count, after[i]? = some (op (load a i) (load b i))
  rest : ∀ i, count ≤ i → after[i]? = before[i]?

namespace Stored

variable {op : Goldilocks → Goldilocks → Goldilocks} {a b before after : Array Goldilocks} {n : Nat}

theorem nothing : Stored op a b before 0 before :=
  ⟨rfl, fun i hi => absurd hi (Nat.not_lt_zero i), fun _ _ => rfl⟩

/-- The next result may be stored. -/
theorem store (h : Stored op a b before n after) (hn : n < before.size) {x : Goldilocks}
    (hx : x = op (load a n) (load b n)) :
    Stored op a b before (n + 1) (after.setIfInBounds n x) where
  size_eq := by rw [Array.size_setIfInBounds, h.size_eq]
  results := by
    intro i hi
    rw [Array.getElem?_setIfInBounds]
    split
    · next heq => rw [if_pos (h.size_eq ▸ hn), hx, heq]
    · next hne => exact h.results i (by omega)
  rest := by
    intro i hi
    rw [Array.getElem?_setIfInBounds_ne (by omega)]
    exact h.rest i (by omega)

/-- The next four results may be stored together. -/
theorem storeFour (h : Stored op a b before n after) (hn : n + 4 ≤ before.size) {x : Lanes}
    (hx : ∀ i : Fin 4, x.lane i = op (load a (n + i)) (load b (n + i))) :
    Stored op a b before (n + 4) (storeFour after n x) := by
  have h₁ := h.store (by omega) (hx 0)
  have h₂ := h₁.store (by omega) (hx 1)
  have h₃ := h₂.store (by omega) (hx 2)
  exact h₃.store (by omega) (hx 3)

end Stored

/-- A view of the destination reads an operand wherever nothing has been stored. -/
def ReadsAhead (view : Array Goldilocks → Array Goldilocks) (a b before : Array Goldilocks) :
    Prop :=
  ∀ {op n after}, Stored op a b before n after → ∀ i, n ≤ i → load (view after) i = load a i

theorem readsAhead_separate (a b before : Array Goldilocks) :
    ReadsAhead (fun _ => a) a b before :=
  fun _ _ _ => rfl

theorem readsAhead_inPlace (a b : Array Goldilocks) : ReadsAhead id a b a := by
  intro op n after h i hi
  simp only [load, id_eq, Array.getD_eq_getD_getElem?, h.rest i hi]

section Run

variable {k : Kernel} {view : Array Goldilocks → Array Goldilocks} {a b before : Array Goldilocks}

/-- Each group of four is read before it is stored. -/
theorem stored_foldl_groups {four : Lanes → Lanes → Lanes}
    (hfour : ∀ x y i, (four x y).lane i = k.scalar (x.lane i) (y.lane i))
    (hview : ReadsAhead view a b before) {groups : Nat} (hsize : groups * 4 ≤ before.size) :
    Stored k.scalar a b before (groups * 4) ((List.range groups).foldl (fun acc group =>
      storeFour acc (group * 4)
        (four (loadFour (view acc) (group * 4)) (loadFour b (group * 4)))) before) := by
  induction groups with
  | zero =>
      rw [Nat.zero_mul]
      exact Stored.nothing
  | succ groups ih =>
      have hstored := ih (by omega)
      rw [List.range_succ, List.foldl_append, Nat.succ_mul]
      apply hstored.storeFour (by omega)
      intro i
      rw [hfour, lane_loadFour, lane_loadFour, hview hstored _ (by omega)]

theorem stored_storeGroups (hk : k.Lanewise) (hview : ReadsAhead view a b before) {count : Nat}
    (hsize : count ≤ before.size) :
    Stored k.scalar a b before (k.vectorCount count) (k.storeGroups view b count before) := by
  unfold vectorCount storeGroups
  cases hvector : k.vector with
  | none => exact Stored.nothing
  | some four =>
      apply stored_foldl_groups (hk four hvector) hview
      omega

/-- The elements that are left are stored one by one. -/
theorem stored_foldl_rest (hview : ReadsAhead view a b before) {start : Nat}
    {after : Array Goldilocks} (h : Stored k.scalar a b before start after) (left : Nat)
    (hsize : start + left ≤ before.size) :
    Stored k.scalar a b before (start + left) ((List.range' start left).foldl (fun acc i =>
      acc.setIfInBounds i (k.scalar (load (view acc) i) (load b i))) after) := by
  induction left with
  | zero => exact h
  | succ left ih =>
      have hstored := ih (by omega)
      rw [List.range'_1_concat, List.foldl_append, ← Nat.add_assoc]
      apply hstored.store (by omega)
      rw [hview hstored _ (Nat.le_refl _)]

theorem vectorCount_le (k : Kernel) (count : Nat) : k.vectorCount count ≤ count := by
  unfold vectorCount
  split
  · exact Nat.div_mul_le_self count 4
  · exact Nat.zero_le count

/-- The groups and the rest after them store every result. -/
theorem stored_storeRest (hk : k.Lanewise) (hview : ReadsAhead view a b before) {count : Nat}
    (hsize : count ≤ before.size) :
    Stored k.scalar a b before count
      (k.storeRest view b count (k.storeGroups view b count before)) := by
  have hle := vectorCount_le k count
  have hrest := stored_foldl_rest hview (stored_storeGroups hk hview hsize)
    (count - k.vectorCount count) (by omega)
  rwa [Nat.add_sub_cancel' hle] at hrest

end Run

/-- The kernels, each with the operation that it batches. -/
def batched : List (Kernel × (Goldilocks → Goldilocks → Goldilocks)) :=
  [(add, (· + ·)), (sub, (· - ·)), (mul, (· * ·))]

/-- A kernel of a batched operation, with its vector form or without it. -/
theorem lanewise_of_mem_batched {entry : Kernel × (Goldilocks → Goldilocks → Goldilocks)}
    (hentry : entry ∈ batched) {k : Kernel} (hk : k ∈ [entry.1, { entry.1 with vector := none }]) :
    k.Lanewise ∧ k.scalar = entry.2 := by
  simp only [batched, List.mem_cons, List.not_mem_nil, or_false] at hentry hk
  rcases hk with rfl | rfl
  · rcases hentry with rfl | rfl | rfl
    · exact ⟨lanewise_add, rfl⟩
    · exact ⟨lanewise_sub, rfl⟩
    · exact ⟨lanewise_of_none rfl, rfl⟩
  · rcases hentry with rfl | rfl | rfl <;> exact ⟨lanewise_of_none rfl, rfl⟩

/-- The word kernels compute the words of the scalar sums and differences. Batched over a
separate destination or over the first operand, with a vector form or without, every operation
stores its scalar results in the first elements and leaves the others as they were. -/
theorem batches_store_scalar_results :
    (∀ x y : Goldilocks, Goldilocks.laneAdd x.word y.word = (x + y).word ∧
      Goldilocks.laneSub x.word y.word = (x - y).word) ∧
    ∀ (a b dst : Array Goldilocks) (count : Nat) (_ : count ≤ a.size) (_ : count ≤ b.size),
      count ≤ dst.size → ∀ entry ∈ batched, ∀ k ∈ [entry.1, { entry.1 with vector := none }],
        ((k.apply a b dst count).size = dst.size ∧ (k.applyInPlace a b count).size = a.size) ∧
        (∀ i (_ : i < count), (k.apply a b dst count)[i]? = some (entry.2 a[i] b[i]) ∧
          (k.applyInPlace a b count)[i]? = some (entry.2 a[i] b[i])) ∧
        ∀ i, count ≤ i → (k.apply a b dst count)[i]? = dst[i]? ∧
          (k.applyInPlace a b count)[i]? = a[i]? := by
  constructor
  · intro x y
    exact ⟨congrArg Goldilocks.word (Goldilocks.laneAdd_eq_add x y),
      congrArg Goldilocks.word (Goldilocks.laneSub_eq_sub x y)⟩
  · intro a b dst count ha hb hdst entry hentry k hk
    obtain ⟨hlanewise, hscalar⟩ := lanewise_of_mem_batched hentry hk
    have hseparate := stored_storeRest hlanewise (readsAhead_separate a b dst) hdst
    have hinPlace := stored_storeRest hlanewise (readsAhead_inPlace a b) ha
    refine ⟨⟨hseparate.size_eq, hinPlace.size_eq⟩, fun i hi => ?_,
      fun i hi => ⟨hseparate.rest i hi, hinPlace.rest i hi⟩⟩
    rw [← hscalar, ← load_eq_getElem, ← load_eq_getElem]
    exact ⟨hseparate.results i hi, hinPlace.results i hi⟩

/-- Elements that reach the middle of the words and the greatest element. -/
def wrappingLeft : Array Goldilocks :=
  #[.ofWord 18446744069414584320, .ofWord 9223372036854775808, 0, .ofWord 5,
    .ofWord 18446744069414584320]

/-- Elements with which sums wrap and differences borrow. -/
def wrappingRight : Array Goldilocks :=
  #[.ofWord 18446744069414584320, .ofWord 9223372036854775808, .ofWord 18446744069414584320,
    .ofWord 7, 1]

/-- Five elements are a group of four and one left over. A sum of the group wraps at `2^64`, a
difference borrows, and the sum left over reaches the order. -/
theorem batches_store_scalar_results_wrapping :
    5 ≤ wrappingLeft.size ∧ 5 ≤ wrappingRight.size ∧ 5 ≤ (Array.replicate 6 (1 : Goldilocks)).size ∧
    (add.applyInPlace wrappingLeft wrappingRight 5)[1]? = some (.ofWord 4294967295) ∧
    (add.applyInPlace wrappingLeft wrappingRight 5)[4]? = some 0 ∧
    (sub.apply wrappingLeft wrappingRight (Array.replicate 6 1) 5)[3]? =
      some (.ofWord 18446744069414584319) ∧
    (sub.apply wrappingLeft wrappingRight (Array.replicate 6 1) 5)[5]? = some 1 := by
  have hstores := batches_store_scalar_results.2 wrappingLeft wrappingRight
    (Array.replicate 6 1) 5 (by decide) (by decide) (by decide)
  obtain ⟨-, hadd, -⟩ := hstores (add, (· + ·)) (by simp [batched]) add (by simp)
  obtain ⟨-, hsub, hrest⟩ := hstores (sub, (· - ·)) (by simp [batched]) sub (by simp)
  refine ⟨by decide, by decide, by decide, (hadd 1 (by decide)).2.trans ?_,
    (hadd 4 (by decide)).2.trans ?_, (hsub 3 (by decide)).1.trans ?_,
    (hrest 5 (by decide)).1.trans ?_⟩ <;> decide +kernel

end Kernel

end CrossLookup
