import Mathlib.Data.List.Basic
import Mathlib.Data.List.Infix

/-!
# Bounded first-in first-out queues

A queue of bounded length is a list. A push appends its value, or is refused when the queue is full;
a pop takes the first value, or has none when the queue is empty. A run from the empty queue is the
list of its events, oldest first: the values that were popped are the first of those that were
accepted, and the queue is the rest.
-/

inductive FifoEvent (α : Type*) where
  | push (value : α) (accepted : Bool)
  | pop (result : Option α)

namespace FifoEvent

variable {α : Type*}

/-- The values that were accepted, in their order. -/
def accepted : List (FifoEvent α) → List α
  | [] => []
  | .push value true :: rest => value :: accepted rest
  | _ :: rest => accepted rest

/-- The values that were popped, in their order. -/
def popped : List (FifoEvent α) → List α
  | [] => []
  | .pop (some value) :: rest => value :: popped rest
  | _ :: rest => popped rest

theorem accepted_append (first second : List (FifoEvent α)) :
    accepted (first ++ second) = accepted first ++ accepted second := by
  induction first with
  | nil => rfl
  | cons e rest ih =>
      cases e with
      | push value ok =>
          cases ok with
          | true => exact congrArg (value :: ·) ih
          | false => exact ih
      | pop result => exact ih

theorem popped_append (first second : List (FifoEvent α)) :
    popped (first ++ second) = popped first ++ popped second := by
  induction first with
  | nil => rfl
  | cons e rest ih =>
      cases e with
      | push value ok => exact ih
      | pop result =>
          cases result with
          | some value => exact congrArg (value :: ·) ih
          | none => exact ih

end FifoEvent

namespace BoundedFifo

variable {α : Type*} {bound : Nat}

/-- One operation of a queue that holds at most `bound` values. -/
inductive Step (bound : Nat) : List α → FifoEvent α → List α → Prop where
  | accept {q : List α} (value : α) (h : q.length < bound) :
      Step bound q (.push value true) (q ++ [value])
  | refuse {q : List α} (value : α) (h : q.length = bound) : Step bound q (.push value false) q
  | take (value : α) (q : List α) : Step bound (value :: q) (.pop (some value)) q
  | miss : Step bound [] (.pop none) []

/-- A run from the empty queue, and the queue that it leads to. -/
inductive Run (bound : Nat) : List (FifoEvent α) → List α → Prop where
  | nil : Run bound [] []
  | snoc {log : List (FifoEvent α)} {q q' : List α} {e : FifoEvent α} :
      Run bound log q → Step bound q e q' → Run bound (log ++ [e]) q'

variable {log : List (FifoEvent α)} {q : List α}

theorem Run.length_le (h : Run bound log q) : q.length ≤ bound := by
  induction h with
  | nil => exact Nat.zero_le bound
  | snoc _ hstep ih =>
      cases hstep with
      | accept value hlt =>
          rw [List.length_append]
          exact hlt
      | refuse value _ => exact ih
      | take value q => exact Nat.le_of_succ_le ih
      | miss => exact ih

/-- What was accepted is what was popped, followed by what the queue holds. -/
theorem Run.accepted_eq (h : Run bound log q) :
    FifoEvent.accepted log = FifoEvent.popped log ++ q := by
  induction h with
  | nil => rfl
  | snoc _ hstep ih =>
      rw [FifoEvent.accepted_append, FifoEvent.popped_append, ih]
      cases hstep with
      | accept value _ => simp [FifoEvent.accepted, FifoEvent.popped]
      | refuse value _ => simp [FifoEvent.accepted, FifoEvent.popped]
      | take value q => simp [FifoEvent.accepted, FifoEvent.popped]
      | miss => simp [FifoEvent.accepted, FifoEvent.popped]

theorem Run.popped_isPrefix (h : Run bound log q) :
    FifoEvent.popped log <+: FifoEvent.accepted log :=
  h.accepted_eq ▸ List.prefix_append _ q

end BoundedFifo
