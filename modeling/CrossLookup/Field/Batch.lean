import CrossLookup.Field.Lanes

/-!
# Batches of base elements

An operation on two arrays, four lanes at a time where it has a vector kernel,
then one by one for the rest. The destination is a separate array or the first
operand itself; every group is read before it is stored.
-/

namespace CrossLookup

/-- A binary operation on base elements, with a vector form if it has one. -/
structure Kernel where
  vector : Option (Lanes → Lanes → Lanes)
  scalar : Goldilocks → Goldilocks → Goldilocks

namespace Kernel

/-- Addition, four lanes at a time. -/
def add : Kernel := ⟨some (· + ·), (· + ·)⟩

/-- Subtraction, four lanes at a time. -/
def sub : Kernel := ⟨some (· - ·), (· - ·)⟩

/-- Multiplication, which has no vector form. -/
def mul : Kernel := ⟨none, (· * ·)⟩

/-- The element of an array at an index. -/
def load (a : Array Goldilocks) (i : Nat) : Goldilocks :=
  a.getD i 0

/-- The four elements of an array from an index on. -/
def loadFour (a : Array Goldilocks) (i : Nat) : Lanes :=
  ⟨Vector.ofFn fun lane => load a (i + lane)⟩

/-- Store four lanes from an index on. -/
def storeFour (dst : Array Goldilocks) (i : Nat) (x : Lanes) : Array Goldilocks :=
  (List.finRange 4).foldl (fun acc (lane : Fin 4) => acc.setIfInBounds (i + lane) x.lanes[lane]) dst

/-- The number of leading elements that the vector form handles. -/
def vectorCount (k : Kernel) (count : Nat) : Nat :=
  if k.vector.isSome then count / 4 * 4 else 0

/-- Run the vector form over the whole groups of four. -/
def storeGroups (k : Kernel) (first : Array Goldilocks → Array Goldilocks)
    (b : Array Goldilocks) (count : Nat) (dst : Array Goldilocks) : Array Goldilocks :=
  match k.vector with
  | none => dst
  | some four =>
      (List.range (count / 4)).foldl (fun acc group =>
        storeFour acc (group * 4)
          (four (loadFour (first acc) (group * 4)) (loadFour b (group * 4)))) dst

/-- Run the scalar form over the elements the vector form leaves. -/
def storeRest (k : Kernel) (first : Array Goldilocks → Array Goldilocks)
    (b : Array Goldilocks) (count : Nat) (dst : Array Goldilocks) : Array Goldilocks :=
  let start := k.vectorCount count
  (List.range' start (count - start)).foldl (fun acc i =>
    acc.setIfInBounds i (k.scalar (load (first acc) i) (load b i))) dst

/-- Combine two arrays of `count` elements into a separate destination. -/
def apply (k : Kernel) (a b dst : Array Goldilocks) (count : Nat) : Array Goldilocks :=
  k.storeRest (fun _ => a) b count (k.storeGroups (fun _ => a) b count dst)

/-- Combine two arrays of `count` elements, storing over the first. -/
def applyInPlace (k : Kernel) (a b : Array Goldilocks) (count : Nat) : Array Goldilocks :=
  k.storeRest id b count (k.storeGroups id b count a)

end Kernel

end CrossLookup
