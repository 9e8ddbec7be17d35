import EmbedMq.Bus.Services
import EmbedMq.Foundation.Threads

/-!
# The announced topics under concurrency

Creating or destroying a subscriber or a replier changes the router or the handler
table, reads the local topics, and stores them in `localTopics_` of the discovery agent,
from where they are announced. Each of these is a critical section of its own, and
`localTopics` itself takes two of them, so the calls of several threads interleave
between them.

When all calls have returned, the stored list should be the local topics. A call whose
list is older than the stored one breaks this, for good: nothing stores the list again
until the next change. Every reading carries the number of changes that came before it,
which the program does not keep, to tell which of two readings is older.
-/

namespace EmbedMq

/-- What a call does to the bus. -/
inductive TopicsUpdate where
  | createSubscriber (pattern : Bytes) (callback : Nat) (qos : QoSProfile)
  | destroySubscriber (subId : UInt64)
  | createReplier (service : Bytes) (handler : Nat)
  | destroyReplier (service : Bytes)

/-- A list of topics as it is put together by `localTopics`. -/
structure TopicsReading where
  topics : List Bytes := []
  /-- The number of changes of the router before it was read. -/
  router : Nat := 0
  /-- The number of changes of the handler table before it was read. -/
  services : Nat := 0

/-- The bus and `localTopics_`, with the numbers of changes so far. -/
structure TopicsState where
  bus : MessageBus
  stored : TopicsReading := {}
  router : Nat := 0
  services : Nat := 0

inductive TopicsAction where
  | update (u : TopicsUpdate)
  /-- `router_.allTopics()`. -/
  | allTopics
  /-- The loop of `localTopics` over the handler table. -/
  | serviceTopics (r : TopicsReading)
  /-- The store of `announceTopics`. -/
  | announceTopics (r : TopicsReading)

namespace TopicsState

def update : TopicsUpdate → TopicsState → TopicsState
  | .createSubscriber pattern callback qos, x =>
      { x with bus := (x.bus.createSubscriber pattern callback qos).1, router := x.router + 1 }
  | .destroySubscriber subId, x =>
      { x with bus := x.bus.removeLocalSubscription subId, router := x.router + 1 }
  | .createReplier service handler, x =>
      { x with bus := x.bus.createReplier service handler, services := x.services + 1 }
  | .destroyReplier service, x =>
      { x with bus := x.bus.removeServiceHandler service, services := x.services + 1 }

def serviceTopics (x : TopicsState) : List Bytes :=
  x.bus.serviceHandlers.toList.map fun entry => MessageBus.svcPrefix ++ entry.1

def run (_ : Unit) : TopicsAction → TopicsState → Outcome TopicsState TopicsAction Empty
  | .update u, x => { state := x.update u, next := [.allTopics] }
  | .allTopics, x =>
      { state := x, next := [.serviceTopics ⟨x.bus.router.allTopics, x.router, 0⟩] }
  | .serviceTopics r, x =>
      { state := x
        next := [.announceTopics ⟨r.topics ++ x.serviceTopics, r.router, x.services⟩] }
  | .announceTopics r, x => { state := { x with stored := r } }

/-! ### What a reading is worth -/

/-- The router has changed since the reading, or the reading is what the router holds. -/
structure Half (x : TopicsState) (r : TopicsReading) : Prop where
  le : r.router ≤ x.router
  eq : r.router = x.router → r.topics = x.bus.router.allTopics

/-- The bus has changed since the reading, or the reading is what the bus holds. -/
structure Full (x : TopicsState) (r : TopicsReading) : Prop where
  router_le : r.router ≤ x.router
  services_le : r.services ≤ x.services
  eq : r.router = x.router → r.services = x.services → r.topics = x.bus.localTopics

/-- The action stores what the router holds now, unless it changes again. -/
def SeesRouter (x : TopicsState) : TopicsAction → Prop
  | .allTopics => True
  | .serviceTopics r => r.router = x.router
  | .announceTopics r => r.router = x.router
  | .update _ => False

def SeesServices (x : TopicsState) : TopicsAction → Prop
  | .allTopics => True
  | .serviceTopics _ => True
  | .announceTopics r => r.services = x.services
  | .update _ => False

variable {x : TopicsState} {r : TopicsReading}

/-- A change concerns the router or the handler table. -/
theorem update_cases (u : TopicsUpdate) (x : TopicsState) :
    ((x.update u).stored = x.stored) ∧
      (((x.update u).router = x.router + 1 ∧ (x.update u).services = x.services ∧
          (x.update u).bus.serviceHandlers = x.bus.serviceHandlers) ∨
        ((x.update u).router = x.router ∧ (x.update u).services = x.services + 1 ∧
          (x.update u).bus.router = x.bus.router)) := by
  cases u with
  | createSubscriber => exact ⟨rfl, Or.inl ⟨rfl, rfl, rfl⟩⟩
  | destroySubscriber => exact ⟨rfl, Or.inl ⟨rfl, rfl, rfl⟩⟩
  | createReplier => exact ⟨rfl, Or.inr ⟨rfl, rfl, rfl⟩⟩
  | destroyReplier => exact ⟨rfl, Or.inr ⟨rfl, rfl, rfl⟩⟩

theorem Half.update (h : Half x r) (u : TopicsUpdate) : Half (x.update u) r := by
  obtain ⟨_, ⟨hrouter, _, _⟩ | ⟨hrouter, _, hsame⟩⟩ := update_cases u x
  · have hle := h.le
    exact ⟨by omega, fun heq => by omega⟩
  · refine ⟨hrouter ▸ h.le, fun heq => ?_⟩
    rw [hsame]
    exact h.eq (heq.trans hrouter)

theorem Full.update (h : Full x r) (u : TopicsUpdate) : Full (x.update u) r := by
  have hrouter := h.router_le
  have hservices := h.services_le
  obtain ⟨_, ⟨h₁, h₂, _⟩ | ⟨h₁, h₂, _⟩⟩ := update_cases u x
  · exact ⟨by omega, by omega, fun heq _ => by omega⟩
  · exact ⟨by omega, by omega, fun _ heq => by omega⟩

theorem Half.full (h : Half x r) :
    Full x ⟨r.topics ++ x.serviceTopics, r.router, x.services⟩ := by
  refine ⟨h.le, Nat.le_refl _, fun heq _ => ?_⟩
  rw [MessageBus.localTopics, ← h.eq heq]
  rfl

end TopicsState

abbrev TopicsThreads := Threads TopicsState Unit TopicsAction

namespace TopicsThreads

open TopicsState

/-- The calls of the four kinds. -/
def IsCall (actions : List TopicsAction) : Prop := ∃ u, actions = [.update u]

def system : TransitionSystem TopicsThreads (Threads.Label Unit TopicsAction) :=
  Threads.system TopicsState.run
    (fun x => ∃ nodeId localHostName, x = { bus := { nodeId, localHostName } }) IsCall

/-- No list is stored over one that was read after a later change of the router or of the handler
table. -/
def NewerOnly (s : TopicsThreads) : Threads.Label Unit TopicsAction → Prop
  | .start _ => True
  | .step i _ => ∀ r rest, s.calls[i]? = some (.announceTopics r :: rest) →
      s.shared.stored.router ≤ r.router ∧ s.shared.stored.services ≤ r.services

/-- The stored list is the local topics, as a set. -/
def Announced (s : TopicsThreads) : Prop :=
  ∀ topic, topic ∈ s.shared.stored.topics ↔ topic ∈ s.shared.bus.localTopics

/-- No call is in progress. -/
def Quiet (s : TopicsThreads) : Prop := ∀ i, ¬ s.Busy i

/-! ### The invariant -/

structure Inv (s : TopicsThreads) : Prop where
  halves : ∀ i r, s.Waiting i (.serviceTopics r) → s.shared.Half r
  lists : ∀ i r, s.Waiting i (.announceTopics r) → s.shared.Full r
  stored : s.shared.Full s.shared.stored
  /-- What the router holds is stored, or will be. -/
  router : s.shared.stored.router = s.shared.router ∨
    ∃ i a, s.Waiting i a ∧ s.shared.SeesRouter a
  services : s.shared.stored.services = s.shared.services ∨
    ∃ i a, s.Waiting i a ∧ s.shared.SeesServices a

namespace Inv

variable {s : TopicsThreads}

theorem start (h : Inv s) {actions : List TopicsAction} (hentry : IsCall actions) :
    Inv { s with calls := s.calls ++ [actions] } := by
  obtain ⟨u, rfl⟩ := hentry
  refine ⟨?_, ?_, h.stored, ?_, ?_⟩
  · intro i r hwaiting
    obtain ⟨_, hmem⟩ | hold := Threads.waiting_start hwaiting
    · cases List.mem_singleton.mp hmem
    · exact h.halves i r hold
  · intro i r hwaiting
    obtain ⟨_, hmem⟩ | hold := Threads.waiting_start hwaiting
    · cases List.mem_singleton.mp hmem
    · exact h.lists i r hold
  · obtain heq | ⟨i, a, hwaiting, hsees⟩ := h.router
    · exact Or.inl heq
    · exact Or.inr ⟨i, a, hwaiting.start _, hsees⟩
  · obtain heq | ⟨i, a, hwaiting, hsees⟩ := h.services
    · exact Or.inl heq
    · exact Or.inr ⟨i, a, hwaiting.start _, hsees⟩

variable {i : Nat} {rest : List TopicsAction}

/-- After a change, the call that made it reads the bus again. -/
theorem update (h : Inv s) {u : TopicsUpdate}
    (hcall : s.calls[i]? = some (.update u :: rest)) :
    Inv (s.stepped TopicsState.run i () (.update u) rest) := by
  have hreads : (s.stepped TopicsState.run i () (.update u) rest).Waiting i .allTopics :=
    Threads.waiting_next hcall (List.mem_singleton.mpr rfl)
  have hstored : (s.shared.update u).stored = s.shared.stored := (update_cases u s.shared).1
  refine ⟨?_, ?_, ?_, Or.inr ⟨i, _, hreads, trivial⟩, Or.inr ⟨i, _, hreads, trivial⟩⟩
  · intro j r hwaiting
    obtain ⟨_, hnew⟩ | hold := Threads.waiting_stepped hcall hwaiting
    · cases List.mem_singleton.mp hnew
    · exact (h.halves j r hold).update u
  · intro j r hwaiting
    obtain ⟨_, hnew⟩ | hold := Threads.waiting_stepped hcall hwaiting
    · cases List.mem_singleton.mp hnew
    · exact (h.lists j r hold).update u
  · change (s.shared.update u).Full (s.shared.update u).stored
    rw [hstored]
    exact h.stored.update u

theorem allTopics (h : Inv s) (hcall : s.calls[i]? = some (.allTopics :: rest)) :
    Inv (s.stepped TopicsState.run i () .allTopics rest) := by
  have hreads : (s.stepped TopicsState.run i () .allTopics rest).Waiting i
      (.serviceTopics ⟨s.shared.bus.router.allTopics, s.shared.router, 0⟩) :=
    Threads.waiting_next hcall (List.mem_singleton.mpr rfl)
  refine ⟨?_, ?_, h.stored, Or.inr ⟨i, _, hreads, rfl⟩, Or.inr ⟨i, _, hreads, trivial⟩⟩
  · intro j r hwaiting
    obtain ⟨_, hnew⟩ | hold := Threads.waiting_stepped hcall hwaiting
    · obtain rfl := TopicsAction.serviceTopics.inj (List.mem_singleton.mp hnew)
      exact ⟨Nat.le_refl _, fun _ => rfl⟩
    · exact h.halves j r hold
  · intro j r hwaiting
    obtain ⟨_, hnew⟩ | hold := Threads.waiting_stepped hcall hwaiting
    · cases List.mem_singleton.mp hnew
    · exact h.lists j r hold

theorem serviceTopics (h : Inv s) {r : TopicsReading}
    (hcall : s.calls[i]? = some (.serviceTopics r :: rest)) :
    Inv (s.stepped TopicsState.run i () (.serviceTopics r) rest) := by
  have hhalf := h.halves i r (Threads.waiting_head hcall)
  have hreads : (s.stepped TopicsState.run i () (.serviceTopics r) rest).Waiting i
      (.announceTopics ⟨r.topics ++ s.shared.serviceTopics, r.router, s.shared.services⟩) :=
    Threads.waiting_next hcall (List.mem_singleton.mpr rfl)
  refine ⟨?_, ?_, h.stored, ?_, Or.inr ⟨i, _, hreads, rfl⟩⟩
  · intro j r' hwaiting
    obtain ⟨_, hnew⟩ | hold := Threads.waiting_stepped hcall hwaiting
    · cases List.mem_singleton.mp hnew
    · exact h.halves j r' hold
  · intro j r' hwaiting
    obtain ⟨_, hnew⟩ | hold := Threads.waiting_stepped hcall hwaiting
    · obtain rfl := TopicsAction.announceTopics.inj (List.mem_singleton.mp hnew)
      exact hhalf.full
    · exact h.lists j r' hold
  · obtain heq | ⟨j, b, hwaiting, hsees⟩ := h.router
    · exact Or.inl heq
    · obtain ⟨rfl, rfl⟩ | hstill := hwaiting.stepped hcall TopicsState.run ()
      · exact Or.inr ⟨j, _, hreads, hsees⟩
      · exact Or.inr ⟨j, b, hstill, hsees⟩

/-- A list that is not older than the stored one takes its place. -/
theorem announceTopics (h : Inv s) {r : TopicsReading}
    (hcall : s.calls[i]? = some (.announceTopics r :: rest))
    (hrouter : s.shared.stored.router ≤ r.router)
    (hservices : s.shared.stored.services ≤ r.services) :
    Inv (s.stepped TopicsState.run i () (.announceTopics r) rest) := by
  have hfull := h.lists i r (Threads.waiting_head hcall)
  have hold : ∀ {j b}, (s.stepped TopicsState.run i () (.announceTopics r) rest).Waiting j b →
      s.Waiting j b := by
    intro j b hwaiting
    obtain ⟨_, hnew⟩ | hold := Threads.waiting_stepped hcall hwaiting
    · exact absurd hnew List.not_mem_nil
    · exact hold
  refine ⟨?_, ?_, ⟨hfull.router_le, hfull.services_le, hfull.eq⟩, ?_, ?_⟩
  · intro j r' hwaiting
    have hhalf := h.halves j r' (hold hwaiting)
    exact ⟨hhalf.le, hhalf.eq⟩
  · intro j r' hwaiting
    have hlist := h.lists j r' (hold hwaiting)
    exact ⟨hlist.router_le, hlist.services_le, hlist.eq⟩
  · obtain heq | ⟨j, b, hwaiting, hsees⟩ := h.router
    · exact Or.inl (Nat.le_antisymm hfull.router_le (heq ▸ hrouter))
    · obtain ⟨_, rfl⟩ | hstill := hwaiting.stepped hcall TopicsState.run ()
      · exact Or.inl hsees
      · exact Or.inr ⟨j, b, hstill, hsees⟩
  · obtain heq | ⟨j, b, hwaiting, hsees⟩ := h.services
    · exact Or.inl (Nat.le_antisymm hfull.services_le (heq ▸ hservices))
    · obtain ⟨_, rfl⟩ | hstill := hwaiting.stepped hcall TopicsState.run ()
      · exact Or.inl hsees
      · exact Or.inr ⟨j, b, hstill, hsees⟩

end Inv

theorem reachable_inv {s : TopicsThreads} (h : (system.restrict NewerOnly).Reachable s) :
    Inv s := by
  refine Threads.invariant h ?_ ?_ ?_
  · rintro s ⟨nodeId, localHostName, hshared⟩ hcalls _
    have hnone : ∀ {i a}, ¬ s.Waiting i a := by
      rintro i a ⟨call, hcall, _⟩
      rw [hcalls] at hcall
      cases hcall
    refine ⟨fun i r hw => absurd hw hnone, fun i r hw => absurd hw hnone, ?_, ?_, ?_⟩
    · rw [hshared]
      exact ⟨Nat.le_refl _, Nat.le_refl _, fun _ _ => rfl⟩
    · exact Or.inl (by rw [hshared])
    · exact Or.inl (by rw [hshared])
  · intro s actions _ hinv hentry _
    exact hinv.start hentry
  · intro s i input a rest _ hinv hcall hcond
    cases a with
    | update u => exact hinv.update hcall
    | allTopics => exact hinv.allTopics hcall
    | serviceTopics r => exact hinv.serviceTopics hcall
    | announceTopics r =>
        obtain ⟨hrouter, hservices⟩ := hcond r rest hcall
        exact hinv.announceTopics hcall hrouter hservices

/-- Whenever no call is in progress, the announced topics are the local topics, in every run that
never stores an older list over a newer one. -/
theorem announced_of_quiet {s : TopicsThreads} (h : (system.restrict NewerOnly).Reachable s)
    (hquiet : Quiet s) : Announced s := by
  have hinv := reachable_inv h
  have hnone : ∀ {i a}, ¬ s.Waiting i a := by
    rintro i a ⟨call, hcall, hmem⟩
    cases call with
    | nil => exact absurd hmem List.not_mem_nil
    | cons b rest => exact hquiet i ⟨b, rest, hcall⟩
  have hrouter : s.shared.stored.router = s.shared.router := by
    obtain heq | ⟨i, a, hwaiting, _⟩ := hinv.router
    · exact heq
    · exact absurd hwaiting hnone
  have hservices : s.shared.stored.services = s.shared.services := by
    obtain heq | ⟨i, a, hwaiting, _⟩ := hinv.services
    · exact heq
    · exact absurd hwaiting hnone
  intro topic
  rw [hinv.stored.eq hrouter hservices]

/-! ### Two threads -/

def fresh : TopicsThreads where
  shared := { bus := { nodeId := 1, localHostName := [] } }
  calls := []
  log := []

/-- A thread subscribes to a topic. -/
def subscribes (topic : Bytes) : Threads.Label Unit TopicsAction :=
  .start [.update (.createSubscriber topic 0 {})]

def goes (count i : Nat) : List (Threads.Label Unit TopicsAction) :=
  List.replicate count (.step i ())

def after (labels : List (Threads.Label Unit TopicsAction)) : TopicsThreads :=
  labels.foldl (Threads.next TopicsState.run) fresh

theorem after_reachable {cond : TopicsThreads → Threads.Label Unit TopicsAction → Prop}
    {labels : List (Threads.Label Unit TopicsAction)}
    (hruns : Threads.Runs TopicsState.run fresh labels = true)
    (hentry : ∀ actions, .start actions ∈ labels → IsCall actions)
    (halong : Threads.Along TopicsState.run cond fresh labels) :
    (system.restrict cond).Reachable (after labels) := by
  refine Threads.reachable_of_runs (.init ?_) hruns hentry halong
  exact ⟨⟨1, [], rfl⟩, rfl, rfl⟩

theorem isCall_of_mem {labels : List (Threads.Label Unit TopicsAction)}
    (h : ∀ l ∈ labels, (∃ topic, l = subscribes topic) ∨ ∃ i, l = .step i ())
    (actions : List TopicsAction) (hmem : .start actions ∈ labels) : IsCall actions := by
  obtain ⟨topic, htopic⟩ | ⟨i, hi⟩ := h _ hmem
  · exact ⟨_, Threads.Label.start.inj htopic⟩
  · cases hi

/-- Two threads subscribe, the second one when the first is done. -/
def oneByOne : List (Threads.Label Unit TopicsAction) :=
  [[subscribes [0x61]], goes 4 0, [subscribes [0x62]], goes 4 1].flatten

/-- The first thread stores its list after the second one. -/
def overtaken : List (Threads.Label Unit TopicsAction) :=
  [[subscribes [0x61], subscribes [0x62]], goes 3 0, goes 4 1, goes 1 0].flatten

def newerOnlyCheck (s : TopicsThreads) : Threads.Label Unit TopicsAction → Bool
  | .start _ => true
  | .step i _ =>
      match s.calls[i]? with
      | some (.announceTopics r :: _) =>
          decide (s.shared.stored.router ≤ r.router) &&
            decide (s.shared.stored.services ≤ r.services)
      | _ => true

theorem newerOnly_of_check (s : TopicsThreads) (l : Threads.Label Unit TopicsAction)
    (h : newerOnlyCheck s l = true) : NewerOnly s l := by
  cases l with
  | start actions => trivial
  | step i input =>
      intro r rest hcall
      simpa only [newerOnlyCheck, hcall, Bool.and_eq_true, decide_eq_true_eq] using h

def quietCheck (s : TopicsThreads) : Bool := s.calls.all List.isEmpty

theorem quiet_of_check {s : TopicsThreads} (h : quietCheck s = true) : Quiet s := by
  rintro i ⟨a, rest, hcall⟩
  have hempty := List.all_eq_true.mp h _ (List.mem_of_getElem? hcall)
  cases hempty

theorem announced_of_quiet_oneByOne :
    Announced (after oneByOne) ∧ [0x62] ∈ (after oneByOne).shared.stored.topics := by
  refine ⟨announced_of_quiet (after_reachable (by decide) (isCall_of_mem ?_) ?_) ?_, by decide⟩
  · simp [oneByOne, goes]
  · exact Threads.along_of_checks newerOnly_of_check (by decide)
  · exact quiet_of_check (by decide)

/-- The topic of the second thread is missing from the announced topics when both have
returned. -/
theorem not_announced_overtaken :
    ¬ ∀ s, system.Reachable s → Quiet s → Announced s := by
  intro hclaim
  have hreach : (system.restrict fun _ _ => True).Reachable (after overtaken) := by
    refine after_reachable (by decide) (isCall_of_mem ?_) (Threads.along_true _)
    simp [overtaken, goes]
  have hannounced := hclaim _ hreach.of_restrict (quiet_of_check (by decide)) [0x62]
  exact absurd (hannounced.mpr (by decide)) (by decide)

end TopicsThreads

end EmbedMq
