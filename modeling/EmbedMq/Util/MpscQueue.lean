import EmbedMq.Foundation.Transition
import Mathlib.Data.List.Basic
import Mathlib.Data.List.Infix
import Mathlib.Data.List.Nodup
import Mathlib.Logic.Function.Basic
import Mathlib.Logic.Relation

/-!
# The queue of many producers and one consumer

The queue is a linked list that begins with a node without a value. A producer exchanges the head
for its node and then links the old head to it, so that between the two steps the list has a gap;
any number of gaps may be open. The consumer moves the value out of the node after the tail, makes
that node the new tail and deletes the old one.

The values in the order of the exchanges, and the values that were returned, are recorded beside the
queue. The invariant numbers the nodes in the order of the exchanges: from the tail on, every node
but the last is linked to its successor unless the push of the successor is unfinished.
-/

namespace EmbedMq

variable {α : Type*}

structure Node (α : Type*) where
  next : Option Nat := none
  value : Option α := none

/-- The nodes that were allocated and not deleted, by their addresses. -/
abbrev NodeHeap (α : Type*) := Nat → Option (Node α)

namespace NodeHeap

/-- The pointer that `next.load` reads. -/
def nextOf (heap : NodeHeap α) (a : Nat) : Option Nat := (heap a).bind Node.next

def Points (heap : NodeHeap α) (a b : Nat) : Prop := heap.nextOf a = some b

def valueOf (heap : NodeHeap α) (a : Nat) : Option α := (heap a).bind Node.value

/-- An access to a node that is in the heap. -/
def modify (heap : NodeHeap α) (a : Nat) (f : Node α → Node α) : NodeHeap α :=
  Function.update heap a ((heap a).map f)

variable {heap : NodeHeap α} {n a m : Nat} {node : Option (Node α)}

theorem nextOf_update :
    nextOf (Function.update heap n node) a =
      if a = n then node.bind Node.next else nextOf heap a := by
  rw [nextOf, Function.update_apply]
  split <;> rfl

theorem valueOf_update :
    valueOf (Function.update heap n node) a =
      if a = n then node.bind Node.value else valueOf heap a := by
  rw [valueOf, Function.update_apply]
  split <;> rfl

theorem modify_ne_none {f : Node α → Node α} : modify heap n f a ≠ none ↔ heap a ≠ none := by
  rw [modify, Function.update_apply]
  split
  · rename_i heq
    rw [ne_eq, Option.map_eq_none_iff, heq]
  · rfl

theorem nextOf_modify_next (hlive : heap n ≠ none) :
    nextOf (modify heap n fun node => { node with next := some m }) a =
      if a = n then some m else nextOf heap a := by
  obtain ⟨nd, hnd⟩ := Option.ne_none_iff_exists'.mp hlive
  rw [modify, nextOf_update, hnd]
  rfl

theorem valueOf_modify_next {next : Option Nat} :
    valueOf (modify heap n fun node => { node with next }) a = valueOf heap a := by
  rw [modify, valueOf_update]
  split
  · rename_i heq
    rw [valueOf, heq]
    cases heap n <;> rfl
  · rfl

theorem nextOf_modify_value {value : Option α} :
    nextOf (modify heap n fun node => { node with value }) a = nextOf heap a := by
  rw [modify, nextOf_update]
  split
  · rename_i heq
    rw [nextOf, heq]
    cases heap n <;> rfl
  · rfl

theorem valueOf_modify_of_ne {f : Node α → Node α} (h : a ≠ n) :
    valueOf (modify heap n f) a = valueOf heap a :=
  valueOf_update.trans (if_neg h)

end NodeHeap

/-- A push between its two steps. `order` is the number of exchanges before its own. -/
structure Push where
  prev : Nat
  node : Nat
  order : Nat
  deriving DecidableEq

/-- How far the consumer is in `pop`, with its local variables. -/
inductive Popping (α : Type*) where
  | idle
  | loaded (tail next : Nat)
  | taken (tail next : Nat) (value : Option α)
  | advanced (tail : Nat) (value : Option α)

/-- How many values of the list the consumer has moved out. -/
def Popping.held : Popping α → Nat
  | .taken _ _ _ => 1
  | _ => 0

structure MpscQueue (α : Type*) where
  heap : NodeHeap α
  head : Nat
  tail : Nat
  pushes : List Push := []
  popping : Popping α := .idle
  exchanged : List α := []
  popped : List α := []

namespace MpscQueue

open NodeHeap

inductive Label (α : Type*) where
  | exchange (node : Nat) (value : α)
  | link (p : Push)
  | load
  | take
  | advance
  | delete

def create (stub : Nat) : MpscQueue α where
  heap := Function.update (fun _ => none) stub (some {})
  head := stub
  tail := stub

/-- The first step of `push`: a new node, and the exchange of the head. -/
def exchange (s : MpscQueue α) (node : Nat) (value : α) : MpscQueue α :=
  { s with
    heap := Function.update s.heap node (some ⟨none, some value⟩)
    head := node
    pushes := ⟨s.head, node, s.exchanged.length⟩ :: s.pushes
    exchanged := s.exchanged ++ [value] }

theorem heap_exchange {s : MpscQueue α} {n : Nat} {value : α} :
    (s.exchange n value).heap = Function.update s.heap n (some ⟨none, some value⟩) := rfl

/-- The second step of `push`. -/
def link (s : MpscQueue α) (p : Push) : MpscQueue α :=
  { s with
    heap := s.heap.modify p.prev fun node => { node with next := some p.node }
    pushes := s.pushes.erase p }

/-- The move of the value, and the reset. -/
def take (s : MpscQueue α) (tail next : Nat) : MpscQueue α :=
  { s with
    heap := s.heap.modify next fun node => { node with value := none }
    popping := .taken tail next (s.heap.valueOf next) }

/-- The end of `pop`, which returns the value. -/
def delete (s : MpscQueue α) (tail : Nat) (value : Option α) : MpscQueue α :=
  { s with
    heap := Function.update s.heap tail none
    popping := .idle
    popped := s.popped ++ value.toList }

def next (s : MpscQueue α) : Label α → MpscQueue α
  | .exchange node value => s.exchange node value
  | .link p => s.link p
  | .load =>
      match s.heap.nextOf s.tail with
      | some next => { s with popping := .loaded s.tail next }
      -- `pop` returns without a value.
      | none => s
  | .take =>
      match s.popping with
      | .loaded tail next => s.take tail next
      | _ => s
  | .advance =>
      match s.popping with
      | .taken tail next value => { s with tail := next, popping := .advanced tail value }
      | _ => s
  | .delete =>
      match s.popping with
      | .advanced tail value => s.delete tail value
      | _ => s

def enabled (s : MpscQueue α) : Label α → Prop
  | .exchange node _ => s.heap node = none
  | .link p => p ∈ s.pushes
  | .load => s.popping = .idle
  | .take => ∃ tail next, s.popping = .loaded tail next
  | .advance => ∃ tail next value, s.popping = .taken tail next value
  | .delete => ∃ tail value, s.popping = .advanced tail value

def system (α : Type*) : TransitionSystem (MpscQueue α) (Label α) where
  init s := ∃ stub, s = create stub
  enabled := enabled
  next := next

/-- What a step that may be taken does. -/
inductive Step (s : MpscQueue α) : Label α → MpscQueue α → Prop where
  | exchange {node : Nat} (hfree : s.heap node = none) (value : α) :
      Step s (.exchange node value) (s.exchange node value)
  | link {p : Push} (hp : p ∈ s.pushes) : Step s (.link p) (s.link p)
  | null (hidle : s.popping = .idle) (hnull : s.heap.nextOf s.tail = none) : Step s .load s
  | load {next : Nat} (hidle : s.popping = .idle) (hnext : s.heap.nextOf s.tail = some next) :
      Step s .load { s with popping := .loaded s.tail next }
  | take {tail next : Nat} (hloaded : s.popping = .loaded tail next) :
      Step s .take (s.take tail next)
  | advance {tail next : Nat} {value : Option α} (htaken : s.popping = .taken tail next value) :
      Step s .advance { s with tail := next, popping := .advanced tail value }
  | delete {tail : Nat} {value : Option α} (hadvanced : s.popping = .advanced tail value) :
      Step s .delete (s.delete tail value)

theorem step_next {s : MpscQueue α} {l : Label α} (h : s.enabled l) : s.Step l (s.next l) := by
  cases l with
  | exchange node value => exact .exchange h value
  | link p => exact .link h
  | load =>
      cases hnext : s.heap.nextOf s.tail with
      | none =>
          simp only [next, hnext]
          exact .null h hnext
      | some node =>
          simp only [next, hnext]
          exact .load h hnext
  | take =>
      obtain ⟨tail, node, hloaded⟩ := h
      simp only [next, hloaded]
      exact .take hloaded
  | advance =>
      obtain ⟨tail, node, value, htaken⟩ := h
      simp only [next, htaken]
      exact .advance htaken
  | delete =>
      obtain ⟨tail, value, hadvanced⟩ := h
      simp only [next, hadvanced]
      exact .delete hadvanced

/-! ### The chain of nodes -/

/-- The push with this number is not between its two steps. -/
def Linked (s : MpscQueue α) (order : Nat) : Prop := ∀ p ∈ s.pushes, p.order ≠ order

/-- The consumer is reading the node after the tail, which has number `first`. -/
structure Reading (s : MpscQueue α) (node : Nat → Nat) (first tail next : Nat) : Prop where
  popped : s.popped = s.exchanged.take first
  tail : tail = node first
  next : next = node (first + 1)
  lt : first < s.exchanged.length
  linked : s.Linked first

/-- What the consumer's local variables say. -/
def Stage (s : MpscQueue α) (node : Nat → Nat) (first : Nat) : Popping α → Prop
  | .idle => s.popped = s.exchanged.take first
  | .loaded tail next => s.Reading node first tail next
  | .taken tail next value => s.Reading node first tail next ∧ value = s.exchanged[first]?
  | .advanced tail value =>
      ∃ k, first = k + 1 ∧ s.popped = s.exchanged.take k ∧ value = s.exchanged[k]? ∧
        s.heap tail ≠ none ∧ ∀ j, first ≤ j → j ≤ s.exchanged.length → node j ≠ tail

/-- `node` numbers the nodes in the order of the exchanges, and the tail has number `first`. -/
structure Chained (s : MpscQueue α) (node : Nat → Nat) (first : Nat) : Prop where
  le : first ≤ s.exchanged.length
  head : s.head = node s.exchanged.length
  tail : s.tail = node first
  injective : ∀ i j, first ≤ i → i ≤ s.exchanged.length → first ≤ j → j ≤ s.exchanged.length →
    node i = node j → i = j
  live : ∀ j, first ≤ j → j ≤ s.exchanged.length → s.heap (node j) ≠ none
  linked : ∀ j, first ≤ j → j < s.exchanged.length → s.Linked j →
    s.heap.nextOf (node j) = some (node (j + 1))
  unlinked : ∀ j, first ≤ j → j < s.exchanged.length → ¬s.Linked j → s.heap.nextOf (node j) = none
  last : s.heap.nextOf (node s.exchanged.length) = none
  pushes : ∀ p ∈ s.pushes, first ≤ p.order ∧ p.order < s.exchanged.length ∧
    p.prev = node p.order ∧ p.node = node (p.order + 1)
  orders : (s.pushes.map Push.order).Nodup
  values : ∀ j, first + s.popping.held ≤ j → j < s.exchanged.length →
    s.heap.valueOf (node (j + 1)) = s.exchanged[j]?
  stage : s.Stage node first s.popping

theorem chained_create (stub : Nat) : Chained (create stub : MpscQueue α) (fun _ => stub) 0 := by
  constructor
  all_goals simp [create, nextOf, Stage]

variable {s : MpscQueue α} {node : Nat → Nat} {first : Nat}

/-- An address outside the heap has no number. -/
theorem Chained.node_ne (h : Chained s node first) {n : Nat} (hfree : s.heap n = none) {j : Nat}
    (hfirst : first ≤ j) (hj : j ≤ s.exchanged.length) : node j ≠ n := by
  rintro rfl
  exact h.live j hfirst hj hfree

/-- A producer's step leaves what the consumer relies on, with the nodes numbered by `node'`. -/
structure Extends (s s' : MpscQueue α) (node node' : Nat → Nat) : Prop where
  popped : s'.popped = s.popped
  exchanged : s.exchanged <+: s'.exchanged
  node_eq : ∀ j ≤ s.exchanged.length, node' j = node j
  linked : ∀ j < s.exchanged.length, s.Linked j → s'.Linked j
  live : ∀ a, s.heap a ≠ none → s'.heap a ≠ none
  fresh : ∀ j, s.exchanged.length < j → j ≤ s'.exchanged.length → s.heap (node' j) = none

section Extends

variable {s' : MpscQueue α} {node' : Nat → Nat}

theorem Extends.take_eq (h : Extends s s' node node') {k : Nat} (hk : k ≤ s.exchanged.length) :
    s'.exchanged.take k = s.exchanged.take k := by
  obtain ⟨rest, hrest⟩ := h.exchanged
  rw [← hrest]
  exact List.take_append_of_le_length hk

theorem Extends.getElem?_eq (h : Extends s s' node node') {k : Nat}
    (hk : k < s.exchanged.length) : s'.exchanged[k]? = s.exchanged[k]? := by
  obtain ⟨rest, hrest⟩ := h.exchanged
  rw [← hrest]
  exact List.getElem?_append_left hk

theorem Extends.reading (h : Extends s s' node node') {tail next : Nat}
    (hread : s.Reading node first tail next) : s'.Reading node' first tail next where
  popped := h.popped.trans (hread.popped.trans (h.take_eq hread.lt.le).symm)
  tail := hread.tail.trans (h.node_eq first hread.lt.le).symm
  next := hread.next.trans (h.node_eq (first + 1) hread.lt).symm
  lt := hread.lt.trans_le h.exchanged.length_le
  linked := h.linked first hread.lt hread.linked

theorem Extends.stage (h : Extends s s' node node') (hle : first ≤ s.exchanged.length)
    {popping : Popping α} (hstage : s.Stage node first popping) :
    s'.Stage node' first popping := by
  cases popping with
  | idle => exact h.popped.trans (hstage.trans (h.take_eq hle).symm)
  | loaded tail next => exact h.reading hstage
  | taken tail next moved =>
      obtain ⟨hread, hmoved⟩ := hstage
      exact ⟨h.reading hread, hmoved.trans (h.getElem?_eq hread.lt).symm⟩
  | advanced tail moved =>
      obtain ⟨k, rfl, hpopped, hmoved, hlive, hother⟩ := hstage
      refine ⟨k, rfl, h.popped.trans (hpopped.trans (h.take_eq (Nat.le_of_succ_le hle)).symm),
        hmoved.trans (h.getElem?_eq hle).symm, h.live tail hlive, fun j hj hj' heq => ?_⟩
      -- The old tail is still allocated, so a node that is new has another address.
      by_cases hold : j ≤ s.exchanged.length
      · exact hother j hj hold ((h.node_eq j hold).symm.trans heq)
      · exact hlive (heq ▸ h.fresh j (by omega) hj')

end Extends

theorem linked_exchange_iff {n : Nat} {value : α} {j : Nat} :
    (s.exchange n value).Linked j ↔ s.exchanged.length ≠ j ∧ s.Linked j :=
  List.forall_mem_cons

theorem length_exchange {n : Nat} {value : α} :
    (s.exchange n value).exchanged.length = s.exchanged.length + 1 := List.length_append

/-- The new node gets the next number. -/
theorem extends_exchange (node : Nat → Nat) {n : Nat} (hfree : s.heap n = none) (value : α) :
    Extends s (s.exchange n value) node (Function.update node (s.exchanged.length + 1) n) where
  popped := rfl
  exchanged := List.prefix_append _ _
  node_eq j hj := Function.update_of_ne (by omega) ..
  linked j hj hlinked := linked_exchange_iff.mpr ⟨Nat.ne_of_gt hj, hlinked⟩
  live a hlive := by
    have hne : a ≠ n := by
      rintro rfl
      exact hlive hfree
    rw [heap_exchange, Function.update_of_ne hne]
    exact hlive
  fresh j hj hj' := by
    rw [length_exchange] at hj'
    rw [Nat.le_antisymm hj' hj, Function.update_self]
    exact hfree

theorem Chained.exchange (h : Chained s node first) {n : Nat} (hfree : s.heap n = none)
    (value : α) :
    Chained (s.exchange n value) (Function.update node (s.exchanged.length + 1) n) first := by
  have hextends := extends_exchange node hfree value
  have hold := hextends.node_eq
  have hne : ∀ j, first ≤ j → j ≤ s.exchanged.length → node j ≠ n := fun j => h.node_ne hfree
  refine ⟨?_, ?_, ?_, ?_, ?_, ?_, ?_, ?_, ?_, ?_, ?_, hextends.stage h.le h.stage⟩
  · rw [length_exchange]
    exact Nat.le_succ_of_le h.le
  · rw [length_exchange, Function.update_self]
    rfl
  · rw [hold first h.le]
    exact h.tail
  · intro i j hi hi' hj hj' heq
    have hinj := h.injective i j hi
    have hni := hne i hi
    have hnj := hne j hj
    rw [length_exchange] at hi' hj'
    grind [Function.update_apply]
  · intro j hj hj'
    have hlive := h.live j hj
    rw [length_exchange] at hj'
    rw [heap_exchange]
    grind [Function.update_apply]
  · intro j hj hj' hlinked
    rw [length_exchange] at hj'
    obtain ⟨hlast, hlinked⟩ := linked_exchange_iff.mp hlinked
    rw [hold j (by omega), hold (j + 1) (by omega), heap_exchange, nextOf_update,
      if_neg (hne j hj (by omega))]
    exact h.linked j hj (by omega) hlinked
  · intro j hj hj' hunlinked
    rw [length_exchange] at hj'
    rw [hold j (by omega), heap_exchange, nextOf_update, if_neg (hne j hj (by omega))]
    by_cases hlast : j = s.exchanged.length
    · rw [hlast]
      exact h.last
    · exact h.unlinked j hj (by omega) fun hlinked =>
        hunlinked (linked_exchange_iff.mpr ⟨Ne.symm hlast, hlinked⟩)
  · rw [length_exchange, Function.update_self, heap_exchange, nextOf_update, if_pos rfl]
    rfl
  · intro p hp
    rw [length_exchange]
    obtain rfl | hp := List.mem_cons.mp hp
    · exact ⟨h.le, Nat.lt_succ_self _, h.head.trans (hold _ (Nat.le_refl _)).symm,
        (Function.update_self (f := node) ..).symm⟩
    · obtain ⟨hfirst, hlt, hprev, hnode⟩ := h.pushes p hp
      exact ⟨hfirst, Nat.lt_succ_of_lt hlt, hprev.trans (hold _ hlt.le).symm,
        hnode.trans (hold _ hlt).symm⟩
  · refine List.nodup_cons.mpr ⟨fun hmem => ?_, h.orders⟩
    obtain ⟨p, hp, heq⟩ := List.mem_map.mp hmem
    exact absurd heq (Nat.ne_of_lt (h.pushes p hp).2.1)
  · intro j hj hj'
    rw [length_exchange] at hj'
    by_cases hlast : j = s.exchanged.length
    · change _ = (s.exchanged ++ [value])[j]?
      rw [hlast, Function.update_self, heap_exchange, valueOf_update, if_pos rfl,
        List.getElem?_concat_length]
      rfl
    · rw [hold _ (by omega), heap_exchange, valueOf_update, if_neg (hne _ (by omega) (by omega)),
        hextends.getElem?_eq (by omega)]
      exact h.values j hj (by omega)

theorem linked_link {p : Push} {j : Nat} (h : s.Linked j) : (s.link p).Linked j :=
  fun q hq => h q (List.mem_of_mem_erase hq)

theorem extends_link (p : Push) : Extends s (s.link p) node node where
  popped := rfl
  exchanged := List.prefix_refl _
  node_eq _ _ := rfl
  linked _ _ hlinked := linked_link hlinked
  live _ hlive := modify_ne_none.mpr hlive
  fresh _ hj hj' := absurd hj (Nat.not_lt_of_le hj')

theorem Chained.link (h : Chained s node first) {p : Push} (hp : p ∈ s.pushes) :
    Chained (s.link p) node first := by
  obtain ⟨hfirst, hlt, hprev, hnode⟩ := h.pushes p hp
  have hlive : s.heap p.prev ≠ none := hprev ▸ h.live _ hfirst hlt.le
  have hnext : ∀ a, (s.link p).heap.nextOf a =
      if a = p.prev then some p.node else s.heap.nextOf a := fun a => nextOf_modify_next hlive
  have hmem : ∀ q ∈ (s.link p).pushes, q ∈ s.pushes := fun q => List.mem_of_mem_erase
  refine ⟨h.le, h.head, h.tail, h.injective, ?_, ?_, ?_, ?_, fun q hq => h.pushes q (hmem q hq),
    h.orders.sublist (List.erase_sublist.map _), ?_, (extends_link p).stage h.le h.stage⟩
  · intro j hj hj'
    exact modify_ne_none.mpr (h.live j hj hj')
  · intro j hj hj' hlinked
    rw [hnext]
    split
    · rename_i heq
      obtain rfl := h.injective j p.order hj hj'.le hfirst hlt.le (heq.trans hprev)
      rw [hnode]
    · rename_i hne
      refine h.linked j hj hj' fun q hq horder => ?_
      by_cases hqp : q = p
      · exact hne (hprev.trans (congrArg node (hqp ▸ horder)) |>.symm)
      · exact hlinked q ((List.mem_erase_of_ne hqp).mpr hq) horder
  · intro j hj hj' hunlinked
    rw [hnext, if_neg]
    · exact h.unlinked j hj hj' fun hlinked => hunlinked (linked_link hlinked)
    · intro heq
      obtain rfl := h.injective j p.order hj hj'.le hfirst hlt.le (heq.trans hprev)
      refine hunlinked fun q hq horder => ?_
      have hq' := hmem q hq
      obtain rfl := List.inj_on_of_nodup_map h.orders hq' hp horder
      exact (List.Nodup.of_map _ h.orders).not_mem_erase hq
  · rw [hnext, if_neg]
    · exact h.last
    · intro heq
      have hsame := h.injective _ p.order h.le (Nat.le_refl _) hfirst hlt.le (heq.trans hprev)
      omega
  · intro j hj hj'
    exact valueOf_modify_next.trans (h.values j hj hj')

/-- A pointer that is read at the tail leads to the next node. -/
theorem Chained.load (h : Chained s node first) (hidle : s.popping = .idle) {n : Nat}
    (hnext : s.heap.nextOf s.tail = some n) :
    Chained { s with popping := .loaded s.tail n } node first := by
  have hstage := h.stage
  have hvalues := h.values
  rw [hidle] at hstage hvalues
  rw [h.tail] at hnext
  have hlt : first < s.exchanged.length := by
    refine Nat.lt_of_le_of_ne h.le fun heq => ?_
    rw [heq, h.last] at hnext
    cases hnext
  have hlinked : s.Linked first := by
    by_contra hunlinked
    rw [h.unlinked first (Nat.le_refl _) hlt hunlinked] at hnext
    cases hnext
  have hn : n = node (first + 1) :=
    Option.some.inj (hnext.symm.trans (h.linked first (Nat.le_refl _) hlt hlinked))
  exact ⟨h.le, h.head, h.tail, h.injective, h.live, h.linked, h.unlinked, h.last, h.pushes,
    h.orders, hvalues, ⟨hstage, h.tail, hn, hlt, hlinked⟩⟩

theorem Chained.take (h : Chained s node first) {tail n : Nat}
    (hloaded : s.popping = .loaded tail n) : Chained (s.take tail n) node first := by
  have hstage := h.stage
  have hvalues := h.values
  rw [hloaded] at hstage hvalues
  have hnext : ∀ a, (s.take tail n).heap.nextOf a = s.heap.nextOf a := fun a => nextOf_modify_value
  refine ⟨h.le, h.head, h.tail, h.injective, ?_, ?_, ?_, ?_, h.pushes, h.orders, ?_, ?_, ?_⟩
  · intro j hj hj'
    exact modify_ne_none.mpr (h.live j hj hj')
  · intro j hj hj' hlinked
    exact (hnext _).trans (h.linked j hj hj' hlinked)
  · intro j hj hj' hunlinked
    exact (hnext _).trans (h.unlinked j hj hj' hunlinked)
  · exact (hnext _).trans h.last
  · intro j hj hj'
    change first + 1 ≤ j at hj
    have hne : node (j + 1) ≠ n := by
      intro heq
      have hlt := hstage.lt
      have hsame := h.injective (j + 1) (first + 1) (by omega) hj' (by omega) hlt
        (heq.trans hstage.next)
      omega
    exact (valueOf_modify_of_ne hne).trans (hvalues j (by change first + 0 ≤ j; omega) hj')
  · exact { hstage with }
  · rw [hstage.next]
    exact hvalues first (Nat.le_refl _) hstage.lt

theorem Chained.advance (h : Chained s node first) {tail n : Nat} {value : Option α}
    (htaken : s.popping = .taken tail n value) :
    Chained { s with tail := n, popping := .advanced tail value } node (first + 1) := by
  have hstage := h.stage
  have hvalues := h.values
  rw [htaken] at hstage hvalues
  obtain ⟨⟨hpopped, rfl, rfl, hlt, hlinked⟩, hvalue⟩ := hstage
  refine ⟨hlt, h.head, rfl, ?_, ?_, ?_, ?_, h.last, ?_, h.orders, hvalues, first, rfl, hpopped,
    hvalue, h.live first (Nat.le_refl _) h.le, ?_⟩
  · intro i j hi hi' hj
    exact h.injective i j (by omega) hi' (by omega)
  · intro j hj
    exact h.live j (by omega)
  · intro j hj
    exact h.linked j (by omega)
  · intro j hj
    exact h.unlinked j (by omega)
  · intro p hp
    obtain ⟨hfirst, hrest⟩ := h.pushes p hp
    exact ⟨Nat.lt_of_le_of_ne hfirst fun heq => hlinked p hp heq.symm, hrest⟩
  · intro j hj hj' heq
    have hsame := h.injective j first (by omega) hj' (Nat.le_refl _) h.le heq
    omega

theorem Chained.delete (h : Chained s node first) {tail : Nat} {value : Option α}
    (hadvanced : s.popping = .advanced tail value) :
    Chained (s.delete tail value) node first := by
  have hstage := h.stage
  have hvalues := h.values
  rw [hadvanced] at hstage hvalues
  obtain ⟨k, rfl, hpopped, rfl, -, hne⟩ := hstage
  have hnext : ∀ j, k + 1 ≤ j → j ≤ s.exchanged.length →
      (s.delete tail s.exchanged[k]?).heap.nextOf (node j) = s.heap.nextOf (node j) :=
    fun j hj hj' => nextOf_update.trans (if_neg (hne j hj hj'))
  refine ⟨h.le, h.head, h.tail, h.injective, ?_, ?_, ?_, ?_, h.pushes, h.orders, ?_, ?_⟩
  · intro j hj hj'
    change Function.update s.heap tail none _ ≠ none
    rw [Function.update_of_ne (hne j hj hj')]
    exact h.live j hj hj'
  · intro j hj hj' hlinked
    exact (hnext j hj hj'.le).trans (h.linked j hj hj' hlinked)
  · intro j hj hj' hunlinked
    exact (hnext j hj hj'.le).trans (h.unlinked j hj hj' hunlinked)
  · exact (hnext _ h.le (Nat.le_refl _)).trans h.last
  · intro j hj hj'
    have hj : k + 1 ≤ j := hj
    exact (valueOf_update.trans (if_neg (hne (j + 1) (by omega) hj'))).trans (hvalues j hj hj')
  · change s.popped ++ s.exchanged[k]?.toList = s.exchanged.take (k + 1)
    rw [hpopped, List.take_add_one]

theorem Chained.step (h : Chained s node first) {l : Label α} {s' : MpscQueue α}
    (hstep : s.Step l s') : ∃ node first, Chained s' node first := by
  cases hstep with
  | exchange hfree value => exact ⟨_, _, h.exchange hfree value⟩
  | link hp => exact ⟨_, _, h.link hp⟩
  | null _ _ => exact ⟨_, _, h⟩
  | load hidle hnext => exact ⟨_, _, h.load hidle hnext⟩
  | take hloaded => exact ⟨_, _, h.take hloaded⟩
  | advance htaken => exact ⟨_, _, h.advance htaken⟩
  | delete hadvanced => exact ⟨_, _, h.delete hadvanced⟩

/-- Every reachable queue is a chain. -/
theorem exists_chained (h : (system α).Reachable s) : ∃ node first, Chained s node first := by
  induction h with
  | init hinit =>
      obtain ⟨stub, rfl⟩ := hinit
      exact ⟨_, _, chained_create stub⟩
  | step _ henabled ih =>
      obtain ⟨node, first, hchain⟩ := ih
      exact hchain.step (step_next henabled)

/-! ### Every run is a run of a queue -/

/-- An address that a producer or the consumer goes on from. -/
def Root (s : MpscQueue α) (a : Nat) : Prop :=
  a = s.head ∨ a = s.tail ∨ ∃ p ∈ s.pushes, a = p.prev ∨ a = p.node

theorem Chained.root (h : Chained s node first) {a : Nat} (hroot : s.Root a) :
    ∃ j, first ≤ j ∧ j ≤ s.exchanged.length ∧ a = node j := by
  obtain rfl | rfl | ⟨p, hp, hnode⟩ := hroot
  · exact ⟨_, h.le, Nat.le_refl _, h.head⟩
  · exact ⟨_, Nat.le_refl _, h.le, h.tail⟩
  · obtain ⟨hfirst, hlt, hprev, hself⟩ := h.pushes p hp
    obtain rfl | rfl := hnode
    · exact ⟨_, hfirst, hlt.le, hprev⟩
    · exact ⟨_, Nat.le_succ_of_le hfirst, hlt, hself⟩

/-- Pointers lead from numbered nodes to numbered nodes. -/
theorem Chained.reaches (h : Chained s node first) {root a : Nat} (hroot : s.Root root)
    (hreach : Relation.ReflTransGen s.heap.Points root a) :
    ∃ j, first ≤ j ∧ j ≤ s.exchanged.length ∧ a = node j := by
  induction hreach with
  | refl => exact h.root hroot
  | @tail b c _ hpoints ih =>
      obtain ⟨j, hfirst, hj, rfl⟩ := ih
      rw [Points] at hpoints
      have hlt : j < s.exchanged.length := by
        refine Nat.lt_of_le_of_ne hj fun heq => ?_
        rw [heq, h.last] at hpoints
        cases hpoints
      have hlinked : s.Linked j := by
        by_contra hunlinked
        rw [h.unlinked j hfirst hlt hunlinked] at hpoints
        cases hpoints
      rw [h.linked j hfirst hlt hlinked] at hpoints
      exact ⟨j + 1, Nat.le_succ_of_le hfirst, hlt, (Option.some.inj hpoints).symm⟩

/-- Only the end of `pop` takes a node from the heap. -/
theorem Step.freed {l : Label α} {s' : MpscQueue α} (hstep : s.Step l s') {a : Nat}
    (hlive : s.heap a ≠ none) (hfreed : s'.heap a = none) :
    ∃ value, s.popping = .advanced a value := by
  cases hstep with
  | exchange _ value =>
      rw [heap_exchange, Function.update_apply] at hfreed
      split at hfreed
      · cases hfreed
      · exact absurd hfreed hlive
  | link _ => exact absurd hfreed (modify_ne_none.mpr hlive)
  | null _ _ => exact absurd hfreed hlive
  | load _ _ => exact absurd hfreed hlive
  | take _ => exact absurd hfreed (modify_ne_none.mpr hlive)
  | advance _ => exact absurd hfreed hlive
  | @delete tail value hadvanced =>
      by_cases ha : a = tail
      · exact ⟨value, ha ▸ hadvanced⟩
      · exact absurd ((Function.update_of_ne ha ..).symm.trans hfreed) hlive

/-- What the queue promises of a state and of every step from it. -/
structure Fifo (s : MpscQueue α) : Prop where
  popped : s.popped <+: s.exchanged
  /-- `pop` returns without a value only if the next one is missing or not linked. -/
  empty : s.popping = .idle → s.heap.nextOf s.tail = none →
    s.popped.length = s.exchanged.length ∨ ∃ p ∈ s.pushes, p.order = s.popped.length
  value : ∀ tail value, s.popping = .advanced tail value →
    ∃ v, value = some v ∧ s.popped ++ [v] <+: s.exchanged
  live : ∀ root, s.Root root → ∀ a, Relation.ReflTransGen s.heap.Points root a →
    s.heap a ≠ none
  freed : ∀ l, s.enabled l → ∀ a, s.heap a ≠ none → (s.next l).heap a = none →
    ∀ root, s.Root root → ¬Relation.ReflTransGen s.heap.Points root a

theorem Chained.popped_isPrefix (h : Chained s node first) : s.popped <+: s.exchanged := by
  have hstage := h.stage
  cases hpopping : s.popping with
  | idle =>
      rw [hpopping] at hstage
      exact hstage ▸ List.take_prefix _ _
  | loaded tail next =>
      rw [hpopping] at hstage
      exact hstage.popped ▸ List.take_prefix _ _
  | taken tail next value =>
      rw [hpopping] at hstage
      exact hstage.1.popped ▸ List.take_prefix _ _
  | advanced tail value =>
      rw [hpopping] at hstage
      obtain ⟨k, -, hpopped, -⟩ := hstage
      exact hpopped ▸ List.take_prefix _ _

theorem fifo_of_reachable (h : (system α).Reachable s) : s.Fifo := by
  obtain ⟨node, first, hchain⟩ := exists_chained h
  have hstage := hchain.stage
  refine ⟨hchain.popped_isPrefix, fun hidle hnull => ?_, fun tail value hadvanced => ?_,
    fun root hroot a hreach => ?_, fun l henabled a hlive hfreed root hroot hreach => ?_⟩
  · rw [hidle] at hstage
    have hlength : s.popped.length = first := by
      rw [hstage, List.length_take]
      exact Nat.min_eq_left hchain.le
    rw [hlength]
    by_cases hlast : first = s.exchanged.length
    · exact .inl hlast
    · right
      rw [hchain.tail] at hnull
      by_contra hnone
      have hlinked : s.Linked first := fun p hp heq => hnone ⟨p, hp, heq⟩
      have hlt : first < s.exchanged.length := Nat.lt_of_le_of_ne hchain.le hlast
      rw [hchain.linked first (Nat.le_refl _) hlt hlinked] at hnull
      cases hnull
  · rw [hadvanced] at hstage
    obtain ⟨k, rfl, hpopped, rfl, -⟩ := hstage
    have hlt : k < s.exchanged.length := hchain.le
    refine ⟨s.exchanged[k], List.getElem?_eq_getElem hlt, ?_⟩
    rw [hpopped, List.take_append_getElem]
    exact List.take_prefix _ _
  · obtain ⟨j, hj, hj', rfl⟩ := hchain.reaches hroot hreach
    exact hchain.live j hj hj'
  · obtain ⟨value, hadvanced⟩ := (step_next henabled).freed hlive hfreed
    rw [hadvanced] at hstage
    obtain ⟨k, -, -, -, -, hne⟩ := hstage
    obtain ⟨j, hj, hj', rfl⟩ := hchain.reaches hroot hreach
    exact hne j hj hj' rfl

/-- Two pushes, the second of which is linked first, and a `pop`. -/
def crossing : List (Label Nat) :=
  [.exchange 1 10, .exchange 2 20, .link ⟨1, 2, 1⟩, .load, .link ⟨0, 1, 0⟩, .load, .take, .advance,
    .delete]

theorem fifo_crossing : ((system Nat).exec (create 0) crossing).Fifo := by
  have hinit : (system Nat).Reachable (create 0) := .init ⟨0, rfl⟩
  have hadmits : (system Nat).Admits (create 0) crossing :=
    ⟨rfl, rfl, List.mem_cons_self, rfl, List.mem_cons_self, rfl, ⟨0, 1, rfl⟩,
      ⟨0, 1, some 10, rfl⟩, ⟨0, some 10, rfl⟩, trivial⟩
  exact fifo_of_reachable (hinit.exec hadmits)

end MpscQueue

end EmbedMq
