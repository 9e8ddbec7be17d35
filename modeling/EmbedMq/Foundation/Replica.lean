import Mathlib.Logic.Function.Basic

/-!
# Replicas behind a queue of updates

A replica is a family of values that is changed by updates, each of which concerns
one key. `replay` runs a queue of updates, oldest first. Updates of different keys
commute, so an update may be taken out of the queue and run at once, provided that
no older update of its key is still in the queue: the replica that the rest of the
queue leads to is the same.
-/

/-- Updates of type `υ` of a family of values indexed by keys. -/
structure Updates (κ υ α : Type*) where
  key : υ → κ
  act : υ → α → α

namespace Updates

variable {κ υ α : Type*} [DecidableEq κ] (U : Updates κ υ α)

/-- Run one update. -/
def apply (u : υ) (f : κ → α) : κ → α :=
  Function.update f (U.key u) (U.act u (f (U.key u)))

/-- Run a queue of updates, oldest first. -/
def replay (us : List υ) (f : κ → α) : κ → α := us.foldl (fun f u => U.apply u f) f

@[simp] theorem replay_nil (f : κ → α) : U.replay [] f = f := rfl

@[simp] theorem replay_cons (u : υ) (us : List υ) (f : κ → α) :
    U.replay (u :: us) f = U.replay us (U.apply u f) := rfl

theorem replay_append (us vs : List υ) (f : κ → α) :
    U.replay (us ++ vs) f = U.replay vs (U.replay us f) :=
  List.foldl_append

theorem apply_comm {u v : υ} (h : U.key u ≠ U.key v) (f : κ → α) :
    U.apply u (U.apply v f) = U.apply v (U.apply u f) := by
  simp only [apply]
  rw [Function.update_of_ne h, Function.update_of_ne h.symm, Function.update_comm h]

/-- Running an update early changes nothing if no older one of its key is waiting. -/
theorem replay_early {older newer : List υ} {u : υ} (h : ∀ v ∈ older, U.key v ≠ U.key u)
    (f : κ → α) :
    U.replay (older ++ u :: newer) f = U.replay (older ++ newer) (U.apply u f) := by
  induction older generalizing f with
  | nil => rfl
  | cons first rest ih =>
      obtain ⟨hfirst, hrest⟩ := List.forall_mem_cons.mp h
      simp only [List.cons_append, replay_cons]
      rw [ih hrest, U.apply_comm hfirst]

end Updates
