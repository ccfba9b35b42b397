/-!
# The tables

The seven sub-machines whose traces take part in lookups, in their fixed
order, and values kept one per table.
-/

namespace CrossLookup

/-- A sub-machine of the multi-table proof. -/
inductive Table
  | arithmetic
  | bytePacking
  | cpu
  | keccak
  | keccakSponge
  | logic
  | memory
deriving DecidableEq, Repr

namespace Table

/-- The number of tables. -/
def count : Nat := 7

/-- Every table, in layout order. -/
def all : Vector Table 7 := #v[
  arithmetic, bytePacking, cpu, keccak, keccakSponge, logic, memory]

/-- The position of a table in the layout. -/
def index : Table → Fin 7
  | arithmetic => 0
  | bytePacking => 1
  | cpu => 2
  | keccak => 3
  | keccakSponge => 4
  | logic => 5
  | memory => 6

/-- The name of a table. -/
def name : Table → String
  | arithmetic => "Arithmetic"
  | bytePacking => "BytePacking"
  | cpu => "Cpu"
  | keccak => "Keccak"
  | keccakSponge => "KeccakSponge"
  | logic => "Logic"
  | memory => "Memory"

@[simp] theorem all_index (t : Table) : all[t.index] = t := by
  cases t <;> rfl

@[simp] theorem index_all (i : Fin 7) : all[i].index = i := by
  revert i
  decide

@[simp] theorem mem_all (t : Table) : t ∈ all.toList := by
  cases t <;> decide

end Table

/-- One value per table. -/
structure PerTable (α : Type) where
  /-- The values in layout order. -/
  values : Vector α 7
deriving DecidableEq

namespace PerTable

variable {α β : Type}

/-- The value of a table. -/
def get (p : PerTable α) (t : Table) : α :=
  p.values[t.index]

/-- Tabulate a function of the table. -/
def ofFn (f : Table → α) : PerTable α :=
  ⟨Table.all.map f⟩

@[simp] theorem get_ofFn (f : Table → α) (t : Table) : (ofFn f).get t = f t :=
  (Vector.getElem_map f t.index.isLt).trans (congrArg f (Table.all_index t))

@[ext] theorem ext {p q : PerTable α} (h : ∀ t, p.get t = q.get t) : p = q := by
  cases p with
  | mk v =>
    cases q with
    | mk w =>
      have hv : v = w := Vector.ext fun i hi => by
        simpa [get] using h Table.all[(⟨i, hi⟩ : Fin 7)]
      rw [hv]

/-- The same value for every table. -/
def const (a : α) : PerTable α :=
  ofFn fun _ => a

instance [Inhabited α] : Inhabited (PerTable α) := ⟨const default⟩

/-- Apply a function to every value. -/
def map (f : α → β) (p : PerTable α) : PerTable β :=
  ofFn fun t => f (p.get t)

/-- Replace the value of one table. -/
def set (p : PerTable α) (t : Table) (a : α) : PerTable α :=
  ⟨p.values.set t.index a⟩

@[simp] theorem get_const (a : α) (t : Table) : (const a).get t = a :=
  get_ofFn _ t

@[simp] theorem get_map (f : α → β) (p : PerTable α) (t : Table) :
    (p.map f).get t = f (p.get t) :=
  get_ofFn _ t

theorem index_inj {t u : Table} (h : t.index.val = u.index.val) : t = u := by
  revert h
  cases t <;> cases u <;> decide

theorem get_set (p : PerTable α) (t u : Table) (a : α) :
    (p.set t a).get u = if t = u then a else p.get u := by
  by_cases h : t = u
  · subst h
    simp [get, set]
  · have hi : t.index.val ≠ u.index.val := fun e => h (index_inj e)
    simp [get, set, h, hi]

/-- Perform an action on every value, in layout order. -/
def mapM {m : Type → Type} [Monad m] (p : PerTable α) (f : α → m β) : m (PerTable β) := do
  let values ← Table.all.mapM fun t => f (p.get t)
  return ⟨values⟩

/-- Tables paired with their values, in layout order. -/
def entries (p : PerTable α) : List (Table × α) :=
  Table.all.toList.map fun t => (t, p.get t)

end PerTable

end CrossLookup
