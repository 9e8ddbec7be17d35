import EmbedMq.Bus.TopicRouter
import EmbedMq.Foundation.Threads

/-!
# Destroying a subscriber while messages are routed

`route` takes a snapshot of the callbacks and invokes them without the lock of the router.
The routing callback of a subscriber holds a `weak_ptr` to its state; it takes a strong
reference, looks at `paused`, and invokes the user's callback while it holds the reference.
`~Subscriber` removes the subscription and releases the reference of its own.

A call of `route` that has the strong reference when the destructor returns invokes the
user's callback afterwards, and one that finds the state kept alive by another call does so
too.
-/

namespace EmbedMq

/-- How far `~Subscriber` has got. -/
inductive Lifetime where
  | alive
  | removed
  | released
  | returned
  deriving DecidableEq

/-- A subscriber, among the others of the router. -/
structure SubscriberState where
  router : TopicRouter
  /-- The strong references to `Subscriber::Impl::State`; the subscriber has one itself. -/
  uses : Nat := 1
  lifetime : Lifetime := .alive

inductive SubscriberAction where
  | route (topic : Bytes)
  /-- `wstate.lock()`, if it is the routing callback of the subscriber. -/
  | lock (callback : Nat)
  /-- Load `paused`. -/
  | readPaused
  /-- The user's callback starts. -/
  | invoke
  /-- The routing callback returns and drops its reference. -/
  | drop
  /-- `reset` of the `unique_ptr` to the subscriber; another one does nothing. -/
  | destroy
  /-- The members of the subscriber are destroyed. -/
  | release
  /-- `~Subscriber` returns. -/
  | finish
  deriving DecidableEq

namespace SubscriberState

/-- Run an action of the subscriber with this id and this routing callback. The input is the value
of `paused`. -/
def run (subId : UInt64) (callback : Nat) (paused : Bool) :
    SubscriberAction → SubscriberState → Outcome SubscriberState SubscriberAction Empty
  | .route topic, x => { state := x, next := (x.router.route topic).map .lock }
  | .lock other, x =>
      if other = callback ∧ x.uses ≠ 0 then
        { state := { x with uses := x.uses + 1 }, next := [.readPaused] }
      else { state := x }
  | .readPaused, x => { state := x, next := [if paused then .drop else .invoke] }
  | .invoke, x => { state := x, next := [.drop] }
  | .drop, x => { state := { x with uses := x.uses - 1 } }
  | .destroy, x =>
      if x.lifetime = .alive then
        { state := { x with router := x.router.removeSubscription subId, lifetime := .removed }
          next := [.release] }
      else { state := x }
  | .release, x =>
      { state := { x with uses := x.uses - 1, lifetime := .released }, next := [.finish] }
  | .finish, x => { state := { x with lifetime := .returned } }

end SubscriberState

abbrev SubscriberThreads := Threads SubscriberState Bool SubscriberAction

namespace SubscriberThreads

open SubscriberState

/-- A message is routed, or the subscriber is destroyed. -/
def IsCall (actions : List SubscriberAction) : Prop :=
  (∃ topic, actions = [.route topic]) ∨ actions = [.destroy]

section System

variable (subId : UInt64) (callback : Nat)

def system : TransitionSystem SubscriberThreads (Threads.Label Bool SubscriberAction) :=
  Threads.system (run subId callback) (fun x => x.lifetime = .alive ∧ x.uses = 1) IsCall

/-- No invocation of the user's callback has started after `~Subscriber` had returned. -/
def NoneAfterReturn (s : SubscriberThreads) : Prop :=
  ∀ e ∈ s.log, e.action = .invoke → e.before.lifetime ≠ .returned

/-- When `~Subscriber` returns, no routing callback is between its check and the user's callback;
and after it has returned, no check finds a reference. -/
def Apart (s : SubscriberThreads) : Threads.Label Bool SubscriberAction → Prop
  | .start _ => True
  | .step i _ => ∀ a rest, s.calls[i]? = some (a :: rest) →
      (a = .finish → ∀ j, ¬ s.Waiting j .readPaused ∧ ¬ s.Waiting j .invoke) ∧
        (a = .lock callback → s.shared.lifetime = .returned → s.shared.uses = 0)

variable {subId callback}

/-! ### The invariant -/

structure Inv (s : SubscriberThreads) : Prop where
  none : NoneAfterReturn s
  settled : s.shared.lifetime = .returned →
    ∀ j, ¬ s.Waiting j .readPaused ∧ ¬ s.Waiting j .invoke

namespace Inv

variable {s : SubscriberThreads} {i : Nat} {paused : Bool} {a : SubscriberAction}
  {rest : List SubscriberAction}

theorem start (h : Inv s) {actions : List SubscriberAction} (hentry : IsCall actions) :
    Inv { s with calls := s.calls ++ [actions] } := by
  refine ⟨h.none, fun hreturned j => ?_⟩
  obtain ⟨hread, hinvoke⟩ := h.settled hreturned j
  have hnew : ∀ b, b = .readPaused ∨ b = .invoke → b ∉ actions := by
    rintro b hb hmem
    obtain ⟨topic, rfl⟩ | rfl := hentry
    · rw [List.mem_singleton.mp hmem] at hb
      simp at hb
    · rw [List.mem_singleton.mp hmem] at hb
      simp at hb
  constructor
  · intro hwaiting
    obtain ⟨_, hmem⟩ | hold := Threads.waiting_start hwaiting
    · exact hnew _ (Or.inl rfl) hmem
    · exact hread hold
  · intro hwaiting
    obtain ⟨_, hmem⟩ | hold := Threads.waiting_start hwaiting
    · exact hnew _ (Or.inr rfl) hmem
    · exact hinvoke hold

/-- A step logs no late invocation if its own action is none. -/
theorem noneAfterReturn_step (h : Inv s) (hcall : s.calls[i]? = some (a :: rest)) :
    NoneAfterReturn (s.stepped (run subId callback) i paused a rest) := by
  intro e hmem hinvoke hreturned
  obtain rfl | hold := List.mem_cons.mp hmem
  · have hwaiting : s.Waiting i .invoke := by
      rw [← show a = .invoke from hinvoke]
      exact Threads.waiting_head hcall
    exact (h.settled hreturned i).2 hwaiting
  · exact h.none e hold hinvoke hreturned

/-- A step that asks for nothing, in a state that was settled before. -/
theorem settled_step (h : Inv s) (hcall : s.calls[i]? = some (a :: rest))
    (hlifetime : (run subId callback paused a s.shared).state.lifetime = .returned →
      s.shared.lifetime = .returned)
    (hnext : s.shared.lifetime = .returned →
      ∀ b ∈ (run subId callback paused a s.shared).next, b ≠ .readPaused ∧ b ≠ .invoke) :
    Inv (s.stepped (run subId callback) i paused a rest) := by
  refine ⟨h.noneAfterReturn_step hcall, fun hreturned j => ?_⟩
  have hbefore := hlifetime hreturned
  obtain ⟨hread, hinvoke⟩ := h.settled hbefore j
  constructor
  · intro hwaiting
    obtain ⟨_, hnew⟩ | hold := Threads.waiting_stepped hcall hwaiting
    · exact (hnext hbefore _ hnew).1 rfl
    · exact hread hold
  · intro hwaiting
    obtain ⟨_, hnew⟩ | hold := Threads.waiting_stepped hcall hwaiting
    · exact (hnext hbefore _ hnew).2 rfl
    · exact hinvoke hold

theorem lock (h : Inv s) {other : Nat} (hcall : s.calls[i]? = some (.lock other :: rest))
    (hapart : other = callback → s.shared.lifetime = .returned → s.shared.uses = 0) :
    Inv (s.stepped (run subId callback) i paused (.lock other) rest) := by
  by_cases hlocks : other = callback ∧ s.shared.uses ≠ 0
  · have hrun : run subId callback paused (.lock other) s.shared =
        { state := { s.shared with uses := s.shared.uses + 1 }, next := [.readPaused] } :=
      if_pos hlocks
    refine h.settled_step hcall (fun hreturned => ?_) (fun hreturned => ?_)
    · rw [hrun] at hreturned
      exact hreturned
    · exact absurd (hapart hlocks.1 hreturned) hlocks.2
  · have hrun : run subId callback paused (.lock other) s.shared = { state := s.shared } :=
      if_neg hlocks
    refine h.settled_step hcall (fun hreturned => ?_) (fun _ b hb => ?_)
    · rw [hrun] at hreturned
      exact hreturned
    · rw [hrun] at hb
      exact absurd hb List.not_mem_nil

theorem destroy (h : Inv s) (hcall : s.calls[i]? = some (.destroy :: rest)) :
    Inv (s.stepped (run subId callback) i paused .destroy rest) := by
  by_cases halive : s.shared.lifetime = .alive
  · have hrun : run subId callback paused .destroy s.shared =
        { state := { s.shared with
            router := s.shared.router.removeSubscription subId, lifetime := .removed }
          next := [.release] } := if_pos halive
    refine h.settled_step hcall (fun hreturned => ?_) (fun hreturned => ?_)
    · rw [hrun] at hreturned
      cases hreturned
    · rw [halive] at hreturned
      cases hreturned
  · have hrun : run subId callback paused .destroy s.shared = { state := s.shared } :=
      if_neg halive
    refine h.settled_step hcall (fun hreturned => ?_) (fun _ b hb => ?_)
    · rw [hrun] at hreturned
      exact hreturned
    · rw [hrun] at hb
      exact absurd hb List.not_mem_nil

theorem finish (h : Inv s) (hcall : s.calls[i]? = some (.finish :: rest))
    (hapart : ∀ j, ¬ s.Waiting j .readPaused ∧ ¬ s.Waiting j .invoke) :
    Inv (s.stepped (run subId callback) i paused .finish rest) := by
  refine ⟨h.noneAfterReturn_step hcall, fun _ j => ⟨fun hwaiting => ?_, fun hwaiting => ?_⟩⟩
  · obtain ⟨_, hnew⟩ | hold := Threads.waiting_stepped hcall hwaiting
    · exact absurd hnew List.not_mem_nil
    · exact (hapart j).1 hold
  · obtain ⟨_, hnew⟩ | hold := Threads.waiting_stepped hcall hwaiting
    · exact absurd hnew List.not_mem_nil
    · exact (hapart j).2 hold

theorem step (h : Inv s) (hcall : s.calls[i]? = some (a :: rest))
    (hapart : Apart callback s (.step i paused)) :
    Inv (s.stepped (run subId callback) i paused a rest) := by
  obtain ⟨hreturn, hlock⟩ := hapart a rest hcall
  cases a with
  | lock other => exact h.lock hcall fun hother => hlock (by rw [hother])
  | destroy => exact h.destroy hcall
  | finish => exact h.finish hcall (hreturn rfl)
  | route topic =>
      refine h.settled_step hcall (fun hreturned => hreturned) fun _ b hb => ?_
      obtain ⟨other, _, rfl⟩ := List.mem_map.mp hb
      simp
  | readPaused =>
      refine h.settled_step hcall (fun hreturned => hreturned) fun hreturned => ?_
      exact absurd (Threads.waiting_head hcall) (h.settled hreturned i).1
  | invoke =>
      refine h.settled_step hcall (fun hreturned => hreturned) fun _ b hb => ?_
      rw [List.mem_singleton.mp hb]
      simp
  | drop =>
      refine h.settled_step hcall (fun hreturned => hreturned) fun _ b hb => ?_
      exact absurd hb List.not_mem_nil
  | release =>
      refine h.settled_step hcall (fun hreturned => ?_) fun _ b hb => ?_
      · cases hreturned
      · rw [List.mem_singleton.mp hb]
        simp

end Inv

theorem inv_of_reachable {s : SubscriberThreads}
    (h : ((system subId callback).restrict (Apart callback)).Reachable s) : Inv s := by
  refine Threads.invariant h ?_ ?_ ?_
  · rintro s ⟨halive, _⟩ _ hlog
    refine ⟨?_, fun hreturned => ?_⟩
    · intro e hmem
      rw [hlog] at hmem
      exact absurd hmem List.not_mem_nil
    · rw [halive] at hreturned
      cases hreturned
  · intro s actions _ hinv hentry _
    exact hinv.start hentry
  · intro s i paused a rest _ hinv hcall hapart
    exact hinv.step hcall hapart

/-- In every run in which the destructor does not return between the check of a routing callback
and the user's callback, and no later check finds a reference, the user's callback does not start
after the destructor has returned. -/
theorem noneAfterReturn {s : SubscriberThreads}
    (h : ((system subId callback).restrict (Apart callback)).Reachable s) : NoneAfterReturn s :=
  (inv_of_reachable h).none

end System

/-! ### Two threads -/

/-- One subscription, to the topic `a`. -/
def subscribed : SubscriberThreads where
  shared := { router := (({} : TopicRouter).addSubscription [0x61] 7 {}).2 }
  calls := []
  log := []

/-- One thread routes a message, and another one destroys the subscriber. -/
def begins : List (Threads.Label Bool SubscriberAction) :=
  [.start [.route [0x61]], .start [.destroy]]

/-- A call runs its next actions; the subscriber is not paused. -/
def goes (count i : Nat) : List (Threads.Label Bool SubscriberAction) :=
  List.replicate count (.step i false)

/-- The message is handed over before the destructor returns. -/
def inTime : List (Threads.Label Bool SubscriberAction) := goes 5 0 ++ goes 3 1

/-- The destructor runs between the check and the user's callback. -/
def tooLate : List (Threads.Label Bool SubscriberAction) := goes 2 0 ++ goes 3 1 ++ goes 3 0

def after (labels : List (Threads.Label Bool SubscriberAction)) : SubscriberThreads :=
  labels.foldl (Threads.next (run 1 7)) subscribed

theorem after_reachable {cond : SubscriberThreads → Threads.Label Bool SubscriberAction → Prop}
    {labels : List (Threads.Label Bool SubscriberAction)}
    (hruns : Threads.Runs (run 1 7) subscribed (begins ++ labels) = true)
    (hsteps : ∀ actions, .start actions ∉ labels)
    (halong : Threads.Along (run 1 7) cond subscribed (begins ++ labels)) :
    ((system 1 7).restrict cond).Reachable (after (begins ++ labels)) := by
  refine Threads.reachable_of_runs (.init ⟨⟨rfl, rfl⟩, rfl, rfl⟩) hruns ?_ halong
  intro actions hmem
  obtain hbegins | hlabels := List.mem_append.mp hmem
  · simp only [begins, List.mem_cons, Threads.Label.start.injEq, List.not_mem_nil, or_false]
      at hbegins
    obtain rfl | rfl := hbegins
    · exact Or.inl ⟨_, rfl⟩
    · exact Or.inr rfl
  · exact absurd hlabels (hsteps actions)

def apartCheck (s : SubscriberThreads) : Threads.Label Bool SubscriberAction → Bool
  | .start _ => true
  | .step i _ =>
      match s.calls[i]? with
      | some (.finish :: _) =>
          s.calls.all fun call => decide (.readPaused ∉ call) && decide (.invoke ∉ call)
      | some (.lock _ :: _) => decide (s.shared.lifetime ≠ .returned)
      | _ => true

theorem apart_of_check (s : SubscriberThreads) (l : Threads.Label Bool SubscriberAction)
    (h : apartCheck s l = true) : Apart 7 s l := by
  cases l with
  | start actions => trivial
  | step i paused =>
      intro a rest hcall
      simp only [apartCheck, hcall] at h
      constructor
      · rintro rfl j
        have hnone : ∀ call ∈ s.calls, .readPaused ∉ call ∧ .invoke ∉ call := by
          simpa only [List.all_eq_true, Bool.and_eq_true, decide_eq_true_eq] using h
        constructor
        · rintro ⟨call, hcall', hmem⟩
          exact (hnone call (List.mem_of_getElem? hcall')).1 hmem
        · rintro ⟨call, hcall', hmem⟩
          exact (hnone call (List.mem_of_getElem? hcall')).2 hmem
      · rintro rfl hreturned
        exact absurd hreturned (by simpa only [decide_eq_true_eq] using h)

theorem noneAfterReturn_inTime : NoneAfterReturn (after (begins ++ inTime)) :=
  @noneAfterReturn 1 7 _
    (after_reachable (by decide) (by simp [inTime, goes])
      (Threads.along_of_checks apart_of_check (by decide)))

theorem not_noneAfterReturn_tooLate :
    ¬ ∀ subId callback s, (system subId callback).Reachable s → NoneAfterReturn s := by
  intro hclaim
  have hreach : ((system 1 7).restrict fun _ _ => True).Reachable (after (begins ++ tooLate)) :=
    after_reachable (by decide) (by simp [tooLate, goes]) (Threads.along_true _)
  have hnone := hclaim 1 7 _ hreach.of_restrict
  have hlate : ∃ e ∈ (after (begins ++ tooLate)).log,
      e.action = .invoke ∧ e.before.lifetime = .returned :=
    ⟨_, List.mem_of_getElem? (i := 1) rfl, rfl, rfl⟩
  obtain ⟨e, hmem, hinvoke, hreturned⟩ := hlate
  exact hnone e hmem hinvoke hreturned

end SubscriberThreads

end EmbedMq
