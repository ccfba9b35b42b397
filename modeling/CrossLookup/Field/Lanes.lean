import CrossLookup.Field.Goldilocks

/-!
# Four lanes of base elements

Sums and differences of four elements at a time are computed by word kernels
that keep the raw result without a final reduction and that know only signed
comparison: unsigned order is signed order after flipping the top bit.
`laneAdd_lt` and `laneSub_lt` say that the raw results are canonical.
-/

namespace CrossLookup

namespace Goldilocks

/-- The word read as a signed number after flipping its top bit. -/
def signFlipped (w : UInt64) : Int64 :=
  (w ^^^ 0x8000000000000000).toInt64

/-- All bits set where `a` exceeds `b` as flipped signed numbers. -/
def above (a b : UInt64) : UInt64 :=
  mask (decide (signFlipped b < signFlipped a))

/-- Take the bits of `b` where the mask is set, and of `a` elsewhere. -/
def blend (a b select : UInt64) : UInt64 :=
  (a &&& ~~~select) ||| (b &&& select)

/-- One lane of a vector sum of canonical words. -/
def laneAdd (a b : UInt64) : UInt64 :=
  let sum := a + b
  blend sum (sum - order) (above a sum ||| above sum (order - 1))

/-- One lane of a vector difference of canonical words. -/
def laneSub (a b : UInt64) : UInt64 :=
  a - b + (order &&& above b a)

theorem xor_top_bit (n : Nat) (h : n < UInt64.size) :
    n ^^^ 0x8000000000000000 =
      if n < 0x8000000000000000 then n + 0x8000000000000000 else n - 0x8000000000000000 := by
  change n < 2 ^ 64 at h
  change n ^^^ 2 ^ 63 = if n < 2 ^ 63 then n + 2 ^ 63 else n - 2 ^ 63
  have low : (n ^^^ 2 ^ 63) % 2 ^ 63 = n % 2 ^ 63 := by
    rw [Nat.xor_mod_two_pow, Nat.mod_self, Nat.xor_zero]
  have high : (n ^^^ 2 ^ 63) / 2 ^ 63 = (n / 2 ^ 63) ^^^ 1 := by
    rw [Nat.xor_div_two_pow, Nat.div_self (by decide)]
  split
  · have top : n / 2 ^ 63 = 0 := by omega
    rw [top, Nat.zero_xor] at high
    omega
  · have top : n / 2 ^ 63 = 1 := by omega
    rw [top, Nat.xor_self] at high
    omega

theorem signFlipped_toInt (w : UInt64) :
    (signFlipped w).toInt = (w.toNat : Int) - 0x8000000000000000 := by
  have unfolded : (signFlipped w).toInt = (w ^^^ 0x8000000000000000).toBitVec.toInt := rfl
  have flipped : (w ^^^ 0x8000000000000000).toBitVec.toNat =
      if w.toNat < 0x8000000000000000 then w.toNat + 0x8000000000000000
      else w.toNat - 0x8000000000000000 := by
    rw [← xor_top_bit w.toNat w.toNat_lt]
    exact UInt64.toNat_xor w _
  have hw := w.toNat_lt
  rw [unfolded, BitVec.toInt_eq_toNat_cond, flipped]
  split <;> split <;> omega

theorem signFlipped_lt_iff (a b : UInt64) : signFlipped a < signFlipped b ↔ a < b := by
  rw [Int64.lt_iff_toInt_lt, signFlipped_toInt, signFlipped_toInt, UInt64.lt_iff_toNat_lt]
  omega

theorem above_eq (a b : UInt64) : above a b = mask (decide (b < a)) := by
  unfold above
  rw [decide_eq_decide.mpr (signFlipped_lt_iff b a)]

theorem mask_or (x y : Bool) : mask x ||| mask y = mask (x || y) := by
  cases x <;> cases y <;> decide

theorem and_mask (w : UInt64) (x : Bool) : w &&& mask x = if x then w else 0 := by
  cases x with
  | false => exact UInt64.and_zero
  | true => exact UInt64.and_neg_one

theorem blend_mask (a b : UInt64) (x : Bool) : blend a b (mask x) = if x then b else a := by
  have hx : ~~~mask x = mask (!x) := by cases x <;> decide
  unfold blend
  rw [hx, and_mask, and_mask]
  cases x with
  | false => exact UInt64.or_zero
  | true => exact UInt64.zero_or

theorem laneAdd_eq (a b : UInt64) :
    laneAdd a b = if a + b < a ∨ order - 1 < a + b then a + b - order else a + b := by
  simp only [laneAdd, above_eq, mask_or, blend_mask, Bool.or_eq_true, decide_eq_true_eq]

theorem laneSub_eq (a b : UInt64) :
    laneSub a b = if a < b then a - b + order else a - b := by
  simp only [laneSub, above_eq, and_mask, decide_eq_true_eq]
  split
  · rfl
  · exact UInt64.add_zero _

theorem toNat_order : order.toNat = 18446744069414584321 := rfl

theorem laneAdd_lt (a b : Goldilocks) : laneAdd a.word b.word < order := by
  have ha := a.canonical
  have hb := b.canonical
  rw [laneAdd_eq]
  simp only [UInt64.lt_iff_toNat_lt, UInt64.toNat_add, UInt64.toNat_sub, toNat_order,
    UInt64.toNat_one] at ha hb ⊢
  split
  · simp only [UInt64.toNat_add, UInt64.toNat_sub, toNat_order]
    omega
  · simp only [UInt64.toNat_add]
    omega

theorem laneSub_lt (a b : Goldilocks) : laneSub a.word b.word < order := by
  have ha := a.canonical
  have hb := b.canonical
  rw [laneSub_eq]
  simp only [UInt64.lt_iff_toNat_lt, toNat_order] at ha hb ⊢
  split
  · simp only [UInt64.toNat_add, UInt64.toNat_sub, toNat_order]
    omega
  · simp only [UInt64.toNat_sub]
    omega

end Goldilocks

/-- Four base elements processed together. -/
structure Lanes where
  /-- The elements, lane 0 first. -/
  lanes : Vector Goldilocks 4
deriving DecidableEq

namespace Lanes

/-- The number of lanes. -/
def width : Nat := 4

/-- The same element in every lane. -/
def broadcast (a : Goldilocks) : Lanes :=
  ⟨Vector.replicate 4 a⟩

instance : Zero Lanes := ⟨broadcast 0⟩
instance : One Lanes := ⟨broadcast 1⟩
instance : Inhabited Lanes := ⟨0⟩

/-- Apply a scalar operation in every lane. -/
def lanewise (f : Goldilocks → Goldilocks → Goldilocks) (a b : Lanes) : Lanes :=
  ⟨Vector.zipWith f a.lanes b.lanes⟩

/-- The sum of each lane, by the word kernel. -/
def add : Lanes → Lanes → Lanes :=
  lanewise fun a b => ⟨Goldilocks.laneAdd a.word b.word, Goldilocks.laneAdd_lt a b⟩

/-- The difference of each lane, by the word kernel. -/
def sub : Lanes → Lanes → Lanes :=
  lanewise fun a b => ⟨Goldilocks.laneSub a.word b.word, Goldilocks.laneSub_lt a b⟩

/-- The product of each lane; 128-bit products are taken one by one. -/
def mul : Lanes → Lanes → Lanes :=
  lanewise (· * ·)

instance : Add Lanes := ⟨add⟩
instance : Sub Lanes := ⟨sub⟩
instance : Mul Lanes := ⟨mul⟩
instance : Neg Lanes := ⟨fun a => 0 - a⟩

instance : HAdd Lanes Goldilocks Lanes := ⟨fun a s => a + broadcast s⟩
instance : HSub Lanes Goldilocks Lanes := ⟨fun a s => a - broadcast s⟩
instance : HMul Lanes Goldilocks Lanes := ⟨fun a s => a * broadcast s⟩

/-- Whether every lane is zero. -/
def isZero (a : Lanes) : Bool :=
  a.lanes.all Goldilocks.isZero

end Lanes

end CrossLookup
