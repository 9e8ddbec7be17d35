import EmbedMq.Foundation.BoundedFifo
import EmbedMq.Foundation.Transition
import Mathlib.Data.Nat.ModEq
import Mathlib.Logic.Function.Basic

/-!
# The ring buffer of one producer and one consumer

`push` reads the head and the tail, writes a cell and stores the new head; `pop` reads the tail and
the head, moves a cell's value out and stores the new tail. Each of these is a step, and the steps
of the two sides may come in any order. One cell always stays free, so that equal indices mean an
empty buffer. An operation counts when it stores its index, or when it reads the index that makes it
fail. The indices do not overflow and are natural numbers here.
-/

namespace EmbedMq

variable {α : Type*}

namespace SpscRing

/-- How far the producer is in `push`, with its local variables. -/
inductive Pushing (α : Type*) where
  | idle
  | loaded (item : α) (head : Nat)
  | writing (item : α) (head next : Nat)
  | written (item : α) (next : Nat)

/-- How far the consumer is in `pop`. -/
inductive Popping (α : Type*) where
  | idle
  | loaded (tail : Nat)
  | reading (tail : Nat)
  | taken (tail : Nat) (item : Option α)

end SpscRing

structure SpscRing (α : Type*) where
  head : Nat := 0
  tail : Nat := 0
  /-- The cells; a cell that was never written or was moved from has no value. -/
  buffer : Nat → Option α := fun _ => none
  pushing : SpscRing.Pushing α := .idle
  popping : SpscRing.Popping α := .idle
  log : List (FifoEvent α) := []

namespace SpscRing

inductive Label (α : Type*) where
  | push (item : α)
  | loadTail
  | write
  | storeHead
  | pop
  | loadHead
  | read
  | storeTail

section

variable (capacity : Nat)

/-- `(i + 1) & (Capacity - 1)` -/
def succ (i : Nat) : Nat := (i + 1) &&& (capacity - 1)

def next (s : SpscRing α) : Label α → SpscRing α
  | .push item => { s with pushing := .loaded item s.head }
  | .loadTail =>
      match s.pushing with
      | .loaded item head =>
          if succ capacity head = s.tail then
            { s with pushing := .idle, log := s.log ++ [.push item false] }
          else { s with pushing := .writing item head (succ capacity head) }
      | _ => s
  | .write =>
      match s.pushing with
      | .writing item head next =>
          { s with buffer := Function.update s.buffer head (some item),
                   pushing := .written item next }
      | _ => s
  | .storeHead =>
      match s.pushing with
      | .written item next =>
          { s with head := next, pushing := .idle, log := s.log ++ [.push item true] }
      | _ => s
  | .pop => { s with popping := .loaded s.tail }
  | .loadHead =>
      match s.popping with
      | .loaded tail =>
          if tail = s.head then { s with popping := .idle, log := s.log ++ [.pop none] }
          else { s with popping := .reading tail }
      | _ => s
  | .read =>
      match s.popping with
      | .reading tail =>
          { s with buffer := Function.update s.buffer tail none,
                   popping := .taken tail (s.buffer tail) }
      | _ => s
  | .storeTail =>
      match s.popping with
      | .taken tail item =>
          { s with tail := succ capacity tail, popping := .idle, log := s.log ++ [.pop item] }
      | _ => s

def enabled (s : SpscRing α) : Label α → Prop
  | .push _ => s.pushing = .idle
  | .loadTail => ∃ item head, s.pushing = .loaded item head
  | .write => ∃ item head next, s.pushing = .writing item head next
  | .storeHead => ∃ item next, s.pushing = .written item next
  | .pop => s.popping = .idle
  | .loadHead => ∃ tail, s.popping = .loaded tail
  | .read => ∃ tail, s.popping = .reading tail
  | .storeTail => ∃ tail item, s.popping = .taken tail item

def system (α : Type*) : TransitionSystem (SpscRing α) (Label α) where
  init s := s = {}
  enabled := enabled
  next := next capacity

end

/-! ### Indices that wrap -/

section Index

variable {capacity : Nat}

theorem succ_eq (hpow : capacity.isPowerOfTwo) (i : Nat) :
    succ capacity i = (i + 1) % capacity := by
  obtain ⟨k, rfl⟩ := hpow
  exact Nat.and_two_pow_sub_one_eq_mod (i + 1) k

theorem succ_mod (hpow : capacity.isPowerOfTwo) (i : Nat) :
    succ capacity (i % capacity) = (i + 1) % capacity := by
  rw [succ_eq hpow, Nat.mod_add_mod]

/-- Less than a turn apart, different counts have different indices. -/
theorem eq_of_mod_eq {i j : Nat} (hle : i ≤ j) (hlt : j < i + capacity)
    (h : i % capacity = j % capacity) : i = j := by
  have hdvd : capacity ∣ j - i := (Nat.modEq_iff_dvd' hle).mp h
  have hzero := Nat.eq_zero_of_dvd_of_lt hdvd (by omega)
  omega

end Index

/-! ### The queue in the ring -/

/-- How many values at the front the consumer has moved out. -/
def Popping.held : Popping α → Nat
  | .taken _ _ => 1
  | _ => 0

/-- What the producer's local variables say when the ring holds `q`. -/
def Producing (capacity : Nat) (s : SpscRing α) (q : List α) : Pushing α → Prop
  | .idle => True
  | .loaded _ head => head = s.head
  | .writing _ head next =>
      head = s.head ∧ next = succ capacity s.head ∧ q.length < capacity - 1
  | .written item next =>
      next = succ capacity s.head ∧ q.length < capacity - 1 ∧ s.buffer s.head = some item

/-- What the consumer's local variables say when the ring holds `q`. -/
def Consuming (s : SpscRing α) (q : List α) : Popping α → Prop
  | .idle => True
  | .loaded tail => tail = s.tail
  | .reading tail => tail = s.tail ∧ q ≠ []
  | .taken tail item => tail = s.tail ∧ ∃ v rest, q = v :: rest ∧ item = some v

/-- The ring holds `q` after `count` values were popped. -/
structure Holds (capacity : Nat) (s : SpscRing α) (q : List α) (count : Nat) : Prop where
  run : BoundedFifo.Run (capacity - 1) s.log q
  head : s.head = (count + q.length) % capacity
  tail : s.tail = count % capacity
  cells : ∀ i, s.popping.held ≤ i → i < q.length → s.buffer ((count + i) % capacity) = q[i]?
  producing : s.Producing capacity q s.pushing
  consuming : s.Consuming q s.popping

theorem holds_init (capacity : Nat) : Holds capacity ({} : SpscRing α) [] 0 :=
  ⟨.nil, (Nat.zero_mod capacity).symm, (Nat.zero_mod capacity).symm,
    fun i _ hi => absurd hi (Nat.not_lt_zero i), trivial, trivial⟩

/-- The consumer does not disturb a producer: it makes room and leaves the cell at the head. -/
theorem Producing.mono {capacity : Nat} {s s' : SpscRing α} {q q' : List α}
    {pushing : Pushing α} (h : Producing capacity s q pushing) (hhead : s'.head = s.head)
    (hle : q'.length ≤ q.length) (hbuffer : s'.buffer s.head = s.buffer s.head) :
    Producing capacity s' q' pushing := by
  cases pushing with
  | idle => exact trivial
  | loaded item head => exact Eq.trans h hhead.symm
  | writing item head n =>
      obtain ⟨heq, hnext, hlt⟩ := h
      exact ⟨heq.trans hhead.symm, hhead ▸ hnext, hle.trans_lt hlt⟩
  | written item n =>
      obtain ⟨hnext, hlt, hcell⟩ := h
      refine ⟨hhead ▸ hnext, hle.trans_lt hlt, ?_⟩
      rw [hhead, hbuffer]
      exact hcell

/-- The producer does not disturb a consumer: values come in at the back. -/
theorem Consuming.append {s s' : SpscRing α} {q : List α} {popping : Popping α}
    (h : Consuming s q popping) (htail : s'.tail = s.tail) (added : List α) :
    Consuming s' (q ++ added) popping := by
  cases popping with
  | idle => exact trivial
  | loaded tail => exact Eq.trans h htail.symm
  | reading tail =>
      obtain ⟨heq, hne⟩ := h
      exact ⟨heq.trans htail.symm, List.append_ne_nil_of_left_ne_nil hne added⟩
  | taken tail moved =>
      obtain ⟨heq, v, rest, rfl, hmoved⟩ := h
      exact ⟨heq.trans htail.symm, v, rest ++ added, rfl, hmoved⟩

section Steps

variable {capacity : Nat} {s : SpscRing α} {q : List α} {count : Nat}
  (hpow : capacity.isPowerOfTwo) (htwo : 2 ≤ capacity) (h : Holds capacity s q count)
include h

include htwo in
theorem Holds.length_lt : q.length < capacity := by
  have hle := h.run.length_le
  omega

include htwo in
/-- The cell after the last one is none of the cells of the queue. -/
theorem Holds.cell_ne {i : Nat} (hi : i < q.length) : (count + i) % capacity ≠ s.head := by
  intro heq
  have hlt := h.length_lt htwo
  have hsame := eq_of_mod_eq (i := count + i) (by omega) (by omega) (heq.trans h.head)
  omega

include htwo in
theorem Holds.head_eq_tail_iff : s.tail = s.head ↔ q = [] := by
  rw [h.tail, h.head]
  constructor
  · intro heq
    have hlt := h.length_lt htwo
    have hsame := eq_of_mod_eq (by omega) (by omega) heq
    exact List.eq_nil_of_length_eq_zero (by omega)
  · rintro rfl
    rfl

include hpow htwo in
theorem Holds.succ_head_eq_tail_iff : succ capacity s.head = s.tail ↔ q.length = capacity - 1 := by
  rw [h.tail, h.head, succ_mod hpow]
  constructor
  · intro heq
    have hlt := h.length_lt htwo
    by_contra hne
    have hsame := eq_of_mod_eq (i := count) (by omega) (by omega) heq.symm
    omega
  · intro heq
    have hturn : count + q.length + 1 = count + capacity := by omega
    rw [hturn, Nat.add_mod_right]

include hpow htwo in
theorem Holds.loadTail {item : α} {head : Nat} (hloaded : s.pushing = .loaded item head) :
    Holds capacity (s.next capacity .loadTail) q count := by
  have hproducing := h.producing
  rw [hloaded] at hproducing
  obtain rfl := hproducing
  simp only [next, hloaded]
  split
  · rename_i hfull
    have hlength := (h.succ_head_eq_tail_iff hpow htwo).mp hfull
    exact ⟨h.run.snoc (.refuse item hlength), h.head, h.tail, h.cells, trivial, h.consuming⟩
  · rename_i hfull
    have hne := fun heq => hfull ((h.succ_head_eq_tail_iff hpow htwo).mpr heq)
    have hlt : q.length < capacity - 1 := Nat.lt_of_le_of_ne h.run.length_le hne
    exact ⟨h.run, h.head, h.tail, h.cells, ⟨rfl, rfl, hlt⟩, h.consuming⟩

include htwo in
theorem Holds.write {item : α} {head n : Nat} (hwriting : s.pushing = .writing item head n) :
    Holds capacity (s.next capacity .write) q count := by
  have hproducing := h.producing
  rw [hwriting] at hproducing
  obtain ⟨rfl, rfl, hlt⟩ := hproducing
  simp only [next, hwriting]
  refine ⟨h.run, h.head, h.tail, fun i hheld hi => ?_, ⟨rfl, hlt, Function.update_self ..⟩,
    h.consuming⟩
  exact (Function.update_of_ne (h.cell_ne htwo hi) ..).trans (h.cells i hheld hi)

include hpow in
theorem Holds.storeHead {item : α} {n : Nat} (hwritten : s.pushing = .written item n) :
    Holds capacity (s.next capacity .storeHead) (q ++ [item]) count := by
  have hproducing := h.producing
  rw [hwritten] at hproducing
  obtain ⟨rfl, hlt, hcell⟩ := hproducing
  simp only [next, hwritten]
  refine ⟨h.run.snoc (.accept item hlt), ?_, h.tail, fun i hheld hi => ?_, trivial,
    h.consuming.append rfl [item]⟩
  · change succ capacity s.head = _
    rw [h.head, succ_mod hpow, List.length_append]
    rfl
  · by_cases hold : i < q.length
    · rw [List.getElem?_append_left hold]
      exact h.cells i hheld hold
    · obtain rfl : i = q.length := by
        rw [List.length_append, List.length_singleton] at hi
        omega
      rw [List.getElem?_concat_length, ← h.head]
      exact hcell

include htwo in
theorem Holds.loadHead {tail : Nat} (hloaded : s.popping = .loaded tail) :
    Holds capacity (s.next capacity .loadHead) q count := by
  have hconsuming := h.consuming
  have hcells := h.cells
  rw [hloaded] at hconsuming hcells
  obtain rfl := hconsuming
  simp only [next, hloaded]
  split
  · rename_i hempty
    obtain rfl := (h.head_eq_tail_iff htwo).mp hempty
    exact ⟨h.run.snoc .miss, h.head, h.tail, hcells, h.producing, trivial⟩
  · rename_i hempty
    have hne := fun heq => hempty ((h.head_eq_tail_iff htwo).mpr heq)
    exact ⟨h.run, h.head, h.tail, hcells, h.producing, rfl, hne⟩

include htwo in
theorem Holds.read {tail : Nat} (hreading : s.popping = .reading tail) :
    Holds capacity (s.next capacity .read) q count := by
  have hconsuming := h.consuming
  have hcells := h.cells
  rw [hreading] at hconsuming hcells
  obtain ⟨rfl, hne⟩ := hconsuming
  obtain ⟨v, rest, rfl⟩ := List.exists_cons_of_ne_nil hne
  have hfirst := hcells 0 (Nat.le_refl _) (Nat.succ_pos _)
  rw [Nat.add_zero, ← h.tail] at hfirst
  have hapart : s.head ≠ s.tail := fun heq => hne ((h.head_eq_tail_iff htwo).mp heq.symm)
  have hproducing := h.producing
  simp only [next, hreading]
  refine ⟨h.run, h.head, h.tail, fun i hheld hi => ?_,
    hproducing.mono rfl (Nat.le_refl _) (Function.update_of_ne hapart ..), rfl, v, rest, rfl,
    hfirst⟩
  have hheld : 1 ≤ i := hheld
  have hother : (count + i) % capacity ≠ s.tail := by
    intro heq
    have hlt := h.length_lt htwo
    have hsame := eq_of_mod_eq (i := count) (by omega) (by omega) (heq.trans h.tail).symm
    omega
  exact (Function.update_of_ne hother ..).trans (hcells i (Nat.zero_le i) hi)

include hpow in
theorem Holds.storeTail {tail : Nat} {item : Option α} (htaken : s.popping = .taken tail item) :
    Holds capacity (s.next capacity .storeTail) q.tail (count + 1) := by
  have hconsuming := h.consuming
  have hcells := h.cells
  rw [htaken] at hconsuming hcells
  obtain ⟨rfl, v, rest, rfl, rfl⟩ := hconsuming
  simp only [next, htaken]
  have hproducing := h.producing
  refine ⟨h.run.snoc (.take v rest), ?_, ?_, fun i _ hi => ?_,
    hproducing.mono rfl (Nat.le_succ _) rfl, trivial⟩
  · change s.head = (count + 1 + rest.length) % capacity
    rw [h.head, List.length_cons, Nat.add_comm rest.length 1, Nat.add_assoc]
  · change succ capacity s.tail = _
    rw [h.tail, succ_mod hpow]
  · have hindex : count + 1 + i = count + (i + 1) := by omega
    change s.buffer ((count + 1 + i) % capacity) = rest[i]?
    rw [hindex]
    exact hcells (i + 1) (Nat.succ_pos i) (Nat.succ_lt_succ hi)

include hpow htwo in
/-- A step leaves a ring that holds a queue. -/
theorem Holds.step {l : Label α} (henabled : s.enabled l) :
    ∃ q count, Holds capacity (s.next capacity l) q count := by
  cases l with
  | push item =>
      exact ⟨q, count, h.run, h.head, h.tail, h.cells, rfl, h.consuming⟩
  | loadTail =>
      obtain ⟨item, head, hloaded⟩ := henabled
      exact ⟨_, _, h.loadTail hpow htwo hloaded⟩
  | write =>
      obtain ⟨item, head, n, hwriting⟩ := henabled
      exact ⟨_, _, h.write htwo hwriting⟩
  | storeHead =>
      obtain ⟨item, n, hwritten⟩ := henabled
      exact ⟨_, _, h.storeHead hpow hwritten⟩
  | pop =>
      have hcells := h.cells
      have hidle : s.popping = .idle := henabled
      rw [hidle] at hcells
      exact ⟨q, count, h.run, h.head, h.tail, hcells, h.producing, rfl⟩
  | loadHead =>
      obtain ⟨tail, hloaded⟩ := henabled
      exact ⟨_, _, h.loadHead htwo hloaded⟩
  | read =>
      obtain ⟨tail, hreading⟩ := henabled
      exact ⟨_, _, h.read htwo hreading⟩
  | storeTail =>
      obtain ⟨tail, item, htaken⟩ := henabled
      exact ⟨_, _, h.storeTail hpow htaken⟩

end Steps

theorem exists_holds {capacity : Nat} (hpow : capacity.isPowerOfTwo) (htwo : 2 ≤ capacity)
    {s : SpscRing α} (h : (system capacity α).Reachable s) :
    ∃ q count, Holds capacity s q count := by
  induction h with
  | init hinit =>
      obtain rfl := hinit
      exact ⟨_, _, holds_init capacity⟩
  | step _ henabled ih =>
      obtain ⟨q, count, hholds⟩ := ih
      exact hholds.step hpow htwo henabled

/-! ### The ring is a bounded queue -/

/-- How many values were accepted and not yet popped. -/
def size (s : SpscRing α) : Nat :=
  (FifoEvent.accepted s.log).length - (FifoEvent.popped s.log).length

/-- What the ring promises of a state, for every order of the steps. -/
structure RefinesFifo (capacity : Nat) (s : SpscRing α) : Prop where
  run : ∃ q, BoundedFifo.Run (capacity - 1) s.log q
  popped : FifoEvent.popped s.log <+: FifoEvent.accepted s.log
  size_le : s.size ≤ capacity - 1
  push_fails : ∀ item head, s.pushing = .loaded item head → succ capacity head = s.tail →
    s.size = capacity - 1
  pop_fails : ∀ tail, s.popping = .loaded tail → tail = s.head → s.size = 0
  cells_differ : ∀ item head n tail, s.pushing = .writing item head n →
    s.popping = .reading tail → head ≠ tail

theorem Holds.size_eq {capacity : Nat} {s : SpscRing α} {q : List α} {count : Nat}
    (h : Holds capacity s q count) : s.size = q.length := by
  rw [size, h.run.accepted_eq, List.length_append, Nat.add_sub_cancel_left]

theorem refinesFifo_of_reachable {capacity : Nat} (hpow : capacity.isPowerOfTwo)
    (htwo : 2 ≤ capacity) {s : SpscRing α} (h : (system capacity α).Reachable s) :
    s.RefinesFifo capacity := by
  obtain ⟨q, count, hholds⟩ := exists_holds hpow htwo h
  have hproducing := hholds.producing
  have hconsuming := hholds.consuming
  refine ⟨⟨q, hholds.run⟩, hholds.run.popped_isPrefix, hholds.size_eq.trans_le hholds.run.length_le,
    fun item head hloaded hfull => ?_, fun tail hloaded hempty => ?_,
    fun item head n tail hwriting hreading => ?_⟩
  · rw [hloaded] at hproducing
    rw [hproducing] at hfull
    exact hholds.size_eq.trans ((hholds.succ_head_eq_tail_iff hpow htwo).mp hfull)
  · rw [hloaded] at hconsuming
    rw [hconsuming] at hempty
    exact hholds.size_eq.trans (congrArg List.length ((hholds.head_eq_tail_iff htwo).mp hempty))
  · rw [hwriting] at hproducing
    rw [hreading] at hconsuming
    rw [hproducing.1, hconsuming.1]
    exact fun heq => hconsuming.2 ((hholds.head_eq_tail_iff htwo).mp heq.symm)

/-- A ring of two cells: a push, and a push that fails in the middle of a pop. -/
def crowded : List (Label Nat) :=
  [.push 10, .loadTail, .write, .storeHead, .pop, .push 20, .loadHead, .read, .loadTail, .storeTail]

theorem refinesFifo_crowded : ((system 2 Nat).exec {} crowded).RefinesFifo 2 := by
  have hinit : (system 2 Nat).Reachable {} := .init rfl
  have hadmits : (system 2 Nat).Admits {} crowded :=
    ⟨rfl, ⟨10, 0, rfl⟩, ⟨10, 0, 1, rfl⟩, ⟨10, 1, rfl⟩, rfl, rfl, ⟨0, rfl⟩, ⟨0, rfl⟩, ⟨20, 1, rfl⟩,
      ⟨0, some 10, rfl⟩, trivial⟩
  exact refinesFifo_of_reachable ⟨1, rfl⟩ (Nat.le_refl 2) (hinit.exec hadmits)

end SpscRing

end EmbedMq
