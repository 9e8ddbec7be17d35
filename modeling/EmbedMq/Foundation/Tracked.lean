import Mathlib.Data.List.Basic
import Mathlib.Data.List.Range

/-!
# Computations that record the positions they read

A program that walks over a buffer is embedded as a value of `Tracked α`: the
result together with the list of positions that were read, in program order. The
value read at a position outside the buffer is a fixed default, so a safety
statement has to speak about the recorded positions and cannot be vacuous.

`Within n` says that every recorded position is below `n`. Its rules follow the
constructors of a monadic program, so a bound for a whole parser is assembled
from the bounds of its reads.
-/

/-- A result and the positions read to obtain it. -/
structure Tracked (α : Type) where
  value : α
  reads : List Nat

namespace Tracked

variable {α β : Type}

instance : Monad Tracked where
  pure a := ⟨a, []⟩
  bind x f := ⟨(f x.value).value, x.reads ++ (f x.value).reads⟩

@[simp] theorem pure_value (a : α) : (pure a : Tracked α).value = a := rfl

@[simp] theorem pure_reads (a : α) : (pure a : Tracked α).reads = [] := rfl

@[simp] theorem bind_value (x : Tracked α) (f : α → Tracked β) :
    (x >>= f).value = (f x.value).value := rfl

@[simp] theorem bind_reads (x : Tracked α) (f : α → Tracked β) :
    (x >>= f).reads = x.reads ++ (f x.value).reads := rfl

@[simp] theorem ite_value (c : Prop) [Decidable c] (x y : Tracked α) :
    (if c then x else y).value = if c then x.value else y.value := by
  split <;> rfl

/-- Read one byte of a buffer. -/
def read (data : List UInt8) (i : Nat) : Tracked UInt8 :=
  ⟨data.getD i 0, [i]⟩

/-- Read the `len` bytes that start at `start`. -/
def readRange (data : List UInt8) (start len : Nat) : Tracked (List UInt8) :=
  ⟨(List.range' start len).map (data.getD · 0), List.range' start len⟩

@[simp] theorem read_value (data : List UInt8) (i : Nat) :
    (read data i).value = data.getD i 0 := rfl

/-- Inside the buffer, a range read returns the slice. -/
theorem readRange_value {data : List UInt8} {start len : Nat}
    (h : start + len ≤ data.length) :
    (readRange data start len).value = (data.drop start).take len := by
  apply List.ext_getElem
  · simp only [readRange, List.length_map, List.length_range', List.length_take, List.length_drop]
    omega
  · intro i hi _
    simp only [readRange, List.length_map, List.length_range'] at hi
    have hin : start + i < data.length := by omega
    simp [readRange, List.getElem?_eq_getElem hin]

/-! ### Bounds on the positions read -/

/-- Every position read is below `n`. -/
def Within (n : Nat) (x : Tracked α) : Prop :=
  ∀ i ∈ x.reads, i < n

theorem within_pure (n : Nat) (a : α) : Within n (pure a : Tracked α) := by
  intro i hi
  cases hi

theorem Within.bind {n : Nat} {x : Tracked α} {f : α → Tracked β}
    (first : Within n x) (rest : Within n (f x.value)) : Within n (x >>= f) := by
  intro i hi
  rw [bind_reads, List.mem_append] at hi
  exact hi.elim (first i) (rest i)

theorem Within.ite {n : Nat} {c : Prop} [Decidable c] {x y : Tracked α}
    (yes : c → Within n x) (no : ¬ c → Within n y) : Within n (if c then x else y) := by
  split
  · exact yes ‹_›
  · exact no ‹_›

theorem within_read {n i : Nat} (data : List UInt8) (h : i < n) : Within n (read data i) := by
  intro j hj
  rw [read, List.mem_singleton] at hj
  omega

theorem within_readRange {n start len : Nat} (data : List UInt8) (h : start + len ≤ n) :
    Within n (readRange data start len) := by
  intro j hj
  rw [readRange, List.mem_range'_1] at hj
  omega

end Tracked
