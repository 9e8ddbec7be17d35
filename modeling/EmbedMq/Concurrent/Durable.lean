import EmbedMq.Bus.Routing
import EmbedMq.Foundation.Transition

/-!
# A durable subscriber among publishes

One thread publishes messages to a topic with RETAIN, one after the other, while another
creates a durable subscriber to it. `publish` stores the message and then routes it;
`createSubscriber` adds the subscription, then reads the retained message, and then invokes
the callback with it. Nothing keeps the steps of the two apart.

The subscriber should end up with the message that was published last. It does, unless the
replay hands over a message that is outdated by then and nothing follows it.
-/

namespace EmbedMq

/-- How far `createSubscriber` has got. -/
inductive Subscribing where
  | idle
  | added
  /-- It has read what was retained, after so many messages had been stored. -/
  | read (seen : Nat) (retained : Option ReceivedMessage)
  | done
  deriving DecidableEq

structure DurableState where
  bus : MessageBus
  /-- The messages stored so far, in order. -/
  published : List ReceivedMessage := []
  /-- The message that the publisher has stored and not yet routed. -/
  routing : Option ReceivedMessage := none
  phase : Subscribing := .idle
  /-- The messages that the callback of the subscriber was invoked with. -/
  handed : List ReceivedMessage := []

namespace DurableState

inductive Label where
  | store (env : Env) (payload : Bytes) (qos : QoSProfile) (flags : UInt8)
  | route
  | add
  | read
  | invoke

/-- The message that the next publish makes. -/
def message (topic payload : Bytes) (bus : MessageBus) : ReceivedMessage :=
  { topic, payload, sourceId := bus.nodeId, sequenceId := UInt32.ofNat bus.seqCounter }

/-- Storing one more message under a topic evicts none. -/
def KeepsAll (topic : Bytes) (msg : ReceivedMessage) (s : RetainedStore) : Prop :=
  s.maxCount = 0 ∨
    (s.retained.insert topic { msg }).entries.length ≤ s.maxCount.toNat

section System

variable (topic : Bytes) (callback : Nat) (qos : QoSProfile)

def next (s : DurableState) : Label → DurableState
  | .store env payload qos flags =>
      let msg := message topic payload s.bus
      let bus := { s.bus with seqCounter := s.bus.seqCounter + 1 }
      { s with
        bus := bus.retain env flags msg qos.lifespanMs
        published := s.published ++ [msg]
        routing := some msg }
  | .route =>
      match s.routing with
      | some msg =>
          let invoked := (s.bus.router.route msg.topic).count callback
          { s with routing := none, handed := s.handed ++ List.replicate invoked msg }
      | none => s
  | .add =>
      { s with
        bus := { s.bus with router := (s.bus.router.addSubscription topic callback qos).2 }
        phase := if qos.durability = .transientLocal then .added else .done }
  | .read => { s with phase := .read s.published.length (s.bus.retainedStore.get topic) }
  | .invoke =>
      match s.phase with
      | .read _ retained => { s with phase := .done, handed := s.handed ++ retained.toList }
      | _ => s

/-- The publishes come one after the other, with RETAIN, and nothing is evicted. -/
def Enabled (s : DurableState) : Label → Prop
  | .store _ payload _ flags =>
      s.routing = none ∧ flags &&& MsgFlags.retain ≠ 0 ∧
        KeepsAll topic (message topic payload s.bus) s.bus.retainedStore
  | .route => s.routing ≠ none
  | .add => s.phase = .idle
  | .read => s.phase = .added
  | .invoke => ∃ seen retained, s.phase = .read seen retained

/-- No call has begun, and the callback is not that of another subscription. -/
def Initial (s : DurableState) : Prop :=
  (∀ topic, callback ∉ s.bus.router.route topic) ∧ s.published = [] ∧ s.routing = none ∧
    s.phase = .idle ∧ s.handed = []

def system : TransitionSystem DurableState Label where
  init := Initial callback
  enabled := Enabled topic
  next := next topic callback qos

/-- When no call is in progress, the callback was last invoked with the last message. -/
def EndsOnLatest (s : DurableState) : Prop :=
  s.phase = .done → s.routing = none → ∀ last, s.published.getLast? = some last →
    last ∈ s.handed ∧ s.handed.getLast? = some last

/-- What the callback is invoked with is the message stored last, or another one is about to be
routed. No message is stored after the reading if the router would not deliver it. -/
def Timely (s : DurableState) : Label → Prop
  | .invoke => ∀ seen msg, s.phase = .read seen (some msg) →
      s.published.length = seen ∨ s.routing ≠ none
  | .store _ _ _ _ => TopicRouter.delivers topic topic = true ∨ s.phase = .idle ∨ s.phase = .added
  | _ => True

/-- The steps of `createSubscriber` one after the other are `createSubscriber`. -/
theorem exec_createSubscriber (hqos : qos.durability = .transientLocal) (s : DurableState) :
    let t := (system topic callback qos).exec s [.add, .read, .invoke]
    t.bus = (s.bus.createSubscriber topic callback qos).1 ∧
      ∃ replayed, t.handed = s.handed ++ replayed ∧
        (s.bus.createSubscriber topic callback qos).2 = replayed.map (.replay callback) := by
  refine ⟨rfl, (s.bus.retainedStore.get topic).toList, rfl, ?_⟩
  rw [MessageBus.createSubscriber, ← Option.toList_map]
  exact if_pos hqos

variable {topic callback qos}

/-! ### Storing and routing -/

theorem get_store_of_keepsAll {s : RetainedStore} {msg : ReceivedMessage} {now : Int}
    {lifespanMs : UInt32} (h : KeepsAll topic msg s) :
    (s.store topic msg now lifespanMs).get topic = some msg := by
  let entry : RetainedEntry :=
    ⟨msg, now, if lifespanMs ≠ 0 then lifespanMs else s.defaultTtlMs⟩
  have hkeep : s.store topic msg now lifespanMs =
      { s with retained := s.retained.insert topic entry } := by
    change RetainedStore.enforceMaxCount { s with retained := s.retained.insert topic entry } = _
    rw [RetainedStore.enforceMaxCount]
    split
    · rfl
    · next hlimit =>
        have hfits := h.resolve_left hlimit
        have hexcess : (s.retained.insert topic entry).entries.length - s.maxCount.toNat = 0 := by
          simp only [AList.entries_insert, List.length_cons] at hfits ⊢
          exact Nat.sub_eq_zero_of_le hfits
        simp only [hexcess]
        rfl
  rw [hkeep, RetainedStore.get, AList.lookup_insert]
  rfl

/-- A new subscription adds its callback where the pattern is delivered. -/
theorem count_route_add (r : TopicRouter) (pattern topic : Bytes) :
    (((r.addSubscription pattern callback qos).2).route topic).count callback =
      (r.route topic).count callback + (TopicRouter.delivers topic pattern).toNat := by
  rw [TopicRouter.addSubscription_eq, TopicRouter.delivers]
  cases TopicRouter.isWild pattern with
  | true =>
      simp only [if_true, TopicRouter.route, List.filter_append, List.map_append,
        List.count_append]
      cases hmatch : TopicRouter.matchWildcard pattern topic with
      | true => simp [hmatch, Nat.add_assoc]
      | false => simp [hmatch]
  | false =>
      simp only [Bool.false_eq_true, if_false, TopicRouter.route, Table.lookup_insert_eq]
      by_cases htopic : topic = pattern
      · subst htopic
        simp only [if_true, Option.getD_some, List.map_append, List.count_append]
        simp
        omega
      · simp [htopic, Ne.symm htopic]

/-! ### One step -/

/-- The last message is the last one that the callback was invoked with. -/
def HandsOver (s : DurableState) : Prop :=
  ∀ last, s.published.getLast? = some last → s.handed.getLast? = some last

variable (topic callback) in
/-- The callback has the last message, or gets it as soon as it is routed. -/
def Owed (s : DurableState) : Prop :=
  s.HandsOver ∨ (s.routing ≠ none ∧ TopicRouter.delivers topic topic = true)

variable (topic callback) in
structure Consistent (s : DurableState) : Prop where
  stored : ∀ last, s.published.getLast? = some last → s.bus.retainedStore.get topic = some last
  routed : ∀ msg, s.routing = some msg → msg.topic = topic ∧ s.published.getLast? = some msg
  idle : s.phase = .idle → ∀ topic, callback ∉ s.bus.router.route topic
  subscribed : s.phase ≠ .idle →
    (s.bus.router.route topic).count callback = (TopicRouter.delivers topic topic).toNat
  read : ∀ seen retained, s.phase = .read seen retained →
    (s.published.length = seen ∧ ∀ last, s.published.getLast? = some last →
      retained = some last) ∨
    (seen < s.published.length ∧ TopicRouter.delivers topic topic = true ∧ s.Owed topic)
  done : s.phase = .done → s.Owed topic

namespace Consistent

variable (qos)

theorem initial {s : DurableState} (h : Initial callback s) : Consistent topic callback s := by
  obtain ⟨hfresh, hpublished, hrouting, hphase, _⟩ := h
  refine ⟨?_, ?_, fun _ => hfresh, fun hne => absurd hphase hne, ?_, ?_⟩
  · simp [hpublished]
  · simp [hrouting]
  · simp [hphase]
  · simp [hphase]

variable {s : DurableState} (h : Consistent topic callback s)
include h

theorem store (env : Env) (payload : Bytes) (pqos : QoSProfile) {flags : UInt8}
    (hretain : flags &&& MsgFlags.retain ≠ 0)
    (hkeeps : KeepsAll topic (message topic payload s.bus) s.bus.retainedStore)
    (htimely : TopicRouter.delivers topic topic = true ∨ s.phase = .idle ∨ s.phase = .added) :
    Consistent topic callback (s.next topic callback qos (.store env payload pqos flags)) := by
  have hlast : (s.next topic callback qos (.store env payload pqos flags)).published.getLast? =
      some (message topic payload s.bus) := List.getLast?_concat
  have hrouting : (s.next topic callback qos (.store env payload pqos flags)).routing =
      some (message topic payload s.bus) := rfl
  have hrouter : (s.next topic callback qos (.store env payload pqos flags)).bus.router =
      s.bus.router := by
    simp only [next, MessageBus.retain, if_pos hretain]
  have howed : TopicRouter.delivers topic topic = true →
      (s.next topic callback qos (.store env payload pqos flags)).Owed topic := by
    intro hdelivers
    exact Or.inr ⟨by rw [hrouting]; exact Option.some_ne_none _, hdelivers⟩
  refine ⟨?_, ?_, ?_, ?_, ?_, ?_⟩
  · intro last hsome
    rw [hlast] at hsome
    rw [← Option.some.inj hsome]
    simp only [next, MessageBus.retain, if_pos hretain]
    exact get_store_of_keepsAll hkeeps
  · intro msg hsome
    rw [hrouting] at hsome
    rw [hlast, hsome, ← Option.some.inj hsome]
    exact ⟨rfl, rfl⟩
  · intro hphase
    rw [hrouter]
    exact h.idle hphase
  · intro hphase
    rw [hrouter]
    exact h.subscribed hphase
  · intro seen retained hphase
    have hread : s.phase = .read seen retained := hphase
    have hlength : (s.next topic callback qos (.store env payload pqos flags)).published.length =
        s.published.length + 1 := List.length_append
    rw [hread] at htimely
    simp only [reduceCtorEq, or_false] at htimely
    refine Or.inr ⟨?_, htimely, howed htimely⟩
    obtain ⟨hsame, _⟩ | ⟨hless, _⟩ := h.read seen retained hread
    · omega
    · omega
  · intro hphase
    have hdone : s.phase = .done := hphase
    rw [hdone] at htimely
    simp only [reduceCtorEq, or_false] at htimely
    exact howed htimely

omit h in
/-- Routing the last message hands it over, or leaves what was handed over before. -/
theorem owed_route {msg : ReceivedMessage} {invoked : Nat}
    (hcount : invoked = (TopicRouter.delivers topic topic).toNat)
    (hlast : s.published.getLast? = some msg) (howed : s.Owed topic) :
    ({ s with routing := none, handed := s.handed ++ List.replicate invoked msg } :
      DurableState).Owed topic := by
  refine Or.inl fun last hsome => ?_
  have hsame : last = msg := Option.some.inj (hsome.symm.trans hlast)
  change (s.handed ++ List.replicate invoked msg).getLast? = some last
  cases hdelivers : TopicRouter.delivers topic topic with
  | true =>
      rw [hcount, hdelivers, hsame]
      exact List.getLast?_concat
  | false =>
      rw [hcount, hdelivers]
      obtain hhanded | ⟨_, htrue⟩ := howed
      · simpa using hhanded last hsome
      · rw [hdelivers] at htrue
        cases htrue

theorem route : Consistent topic callback (s.next topic callback qos .route) := by
  cases hrouting : s.routing with
  | none =>
      simp only [next, hrouting]
      exact h
  | some msg =>
      obtain ⟨htopic, hlast⟩ := h.routed msg hrouting
      simp only [next, hrouting, htopic]
      refine ⟨h.stored, fun _ hsome => absurd hsome.symm (Option.some_ne_none _), h.idle,
        h.subscribed, ?_, ?_⟩
      · intro seen retained hphase
        have hcount := h.subscribed (by rw [hphase]; exact Subscribing.noConfusion)
        obtain hfirst | ⟨hless, hdelivers, howed⟩ := h.read seen retained hphase
        · exact Or.inl hfirst
        · exact Or.inr ⟨hless, hdelivers, owed_route hcount hlast howed⟩
      · intro hphase
        have hcount := h.subscribed (by rw [hphase]; exact Subscribing.noConfusion)
        exact owed_route hcount hlast (h.done hphase)

theorem add (hqos : qos.durability = .transientLocal) (hidle : s.phase = .idle) :
    Consistent topic callback (s.next topic callback qos .add) := by
  have hphase : (s.next topic callback qos .add).phase = .added := if_pos hqos
  refine ⟨h.stored, h.routed, ?_, ?_, ?_, ?_⟩
  · simp [hphase]
  · intro _
    have hnone := List.count_eq_zero_of_not_mem (h.idle hidle topic)
    have hadd := @count_route_add callback qos s.bus.router topic topic
    rw [hnone, Nat.zero_add] at hadd
    exact hadd
  · simp [hphase]
  · simp [hphase]

theorem readRetained (hadded : s.phase = .added) :
    Consistent topic callback (s.next topic callback qos .read) := by
  refine ⟨h.stored, h.routed, ?_, ?_, ?_, ?_⟩
  · rintro ⟨⟩
  · exact fun _ => h.subscribed (by rw [hadded]; exact Subscribing.noConfusion)
  · intro seen retained hphase
    obtain ⟨rfl, rfl⟩ := Subscribing.read.inj hphase
    exact Or.inl ⟨rfl, h.stored⟩
  · rintro ⟨⟩

theorem invoke {seen : Nat} {retained : Option ReceivedMessage}
    (hread : s.phase = .read seen retained)
    (htimely : ∀ msg, retained = some msg → s.published.length = seen ∨ s.routing ≠ none) :
    Consistent topic callback (s.next topic callback qos .invoke) := by
  simp only [next, hread]
  refine ⟨h.stored, h.routed, ?_, ?_, ?_, fun _ => ?_⟩
  · rintro ⟨⟩
  · exact fun _ => h.subscribed (by rw [hread]; exact Subscribing.noConfusion)
  · intro seen' retained' hphase
    cases hphase
  · obtain ⟨_, hlast⟩ | ⟨hless, hdelivers, howed⟩ := h.read seen retained hread
    · -- What was read is still the last message.
      refine Or.inl fun last hsome => ?_
      change (s.handed ++ retained.toList).getLast? = some last
      rw [hlast last hsome]
      exact List.getLast?_concat
    · cases retained with
      | none =>
          obtain hhanded | hrouting := howed
          · refine Or.inl fun last hsome => ?_
            change (s.handed ++ []).getLast? = some last
            rw [List.append_nil]
            exact hhanded last hsome
          · exact Or.inr hrouting
      | some msg =>
          obtain hsame | hrouting := htimely msg rfl
          · omega
          · exact Or.inr ⟨hrouting, hdelivers⟩

end Consistent

/-! ### Runs -/

theorem consistent_of_reachable (hqos : qos.durability = .transientLocal) {s : DurableState}
    (h : ((system topic callback qos).restrict (Timely topic)).Reachable s) :
    Consistent topic callback s := by
  induction h with
  | init hinit => exact Consistent.initial hinit
  | @step s l _ henabled ih =>
      obtain ⟨henabled, htimely⟩ := henabled
      cases l with
      | store env payload pqos flags =>
          obtain ⟨_, hretain, hkeeps⟩ := henabled
          exact ih.store qos env payload pqos hretain hkeeps htimely
      | route => exact ih.route qos
      | add => exact ih.add qos hqos henabled
      | read => exact ih.readRetained qos henabled
      | invoke =>
          obtain ⟨seen, retained, hread⟩ := henabled
          refine ih.invoke qos hread fun msg hsome => ?_
          rw [hsome] at hread
          exact htimely seen msg hread

/-- In every run in which the replayed message is not outdated when it is handed over, unless a
newer one is about to be routed, the subscriber ends up with the last message. -/
theorem endsOnLatest (hqos : qos.durability = .transientLocal) {s : DurableState}
    (h : ((system topic callback qos).restrict (Timely topic)).Reachable s) : EndsOnLatest s := by
  intro hdone hrouting last hlast
  have hhanded : s.handed.getLast? = some last := by
    obtain hhanded | ⟨hne, _⟩ := (consistent_of_reachable hqos h).done hdone
    · exact hhanded last hlast
    · exact absurd hrouting hne
  exact ⟨List.mem_of_getLast? hhanded, hhanded⟩

end System

/-! ### Schedules -/

/-- A bus right after its construction. -/
def started : DurableState := { bus := { nodeId := 1, localHostName := [] } }

/-- The surroundings of a call at time 0. -/
def surroundings : Env where
  now := 0
  sent _ := 0
  stamp _ := 0
  active _ := true
  invoke _ _ := []

/-- One publish of one byte. -/
def publishing (payload : UInt8) : List Label :=
  [.store surroundings [payload] {} MsgFlags.retain, .route]

theorem initial_started : Initial 0 started := ⟨fun _ => List.not_mem_nil, rfl, rfl, rfl, rfl⟩

/-- The subscriber is created after a publish, with another one after it. -/
theorem endsOnLatest_after :
    EndsOnLatest (TransitionSystem.exec (system [0x61] 0 { durability := .transientLocal })
      started (publishing 1 ++ [.add, .read, .invoke] ++ publishing 2)) := by
  refine @endsOnLatest [0x61] 0 _ rfl _
    (TransitionSystem.Reachable.exec (.init initial_started) ?_)
  exact ⟨⟨⟨rfl, by decide, Or.inl rfl⟩, Or.inl (by decide)⟩, ⟨Option.some_ne_none _, trivial⟩,
    ⟨rfl, trivial⟩, ⟨rfl, trivial⟩,
    ⟨⟨_, _, rfl⟩, fun seen msg h => Or.inl (Subscribing.read.inj h).1⟩,
    ⟨⟨rfl, by decide, Or.inl rfl⟩, Or.inl (by decide)⟩, ⟨Option.some_ne_none _, trivial⟩, trivial⟩

/-- The second message is stored and routed while the first one waits to be replayed. -/
theorem not_endsOnLatest :
    ¬ ∀ topic callback qos, qos.durability = .transientLocal → ∀ s,
      (system topic callback qos).Reachable s → EndsOnLatest s := by
  intro hclaim
  have hreach : (system [0x61] 0 { durability := .transientLocal }).Reachable
      ((system [0x61] 0 { durability := .transientLocal }).exec started
        (publishing 1 ++ [.add, .read] ++ publishing 2 ++ [.invoke])) := by
    refine TransitionSystem.Reachable.exec (.init initial_started) ?_
    exact ⟨⟨rfl, by decide, Or.inl rfl⟩, Option.some_ne_none _, rfl, rfl,
      ⟨rfl, by decide, Or.inl rfl⟩, Option.some_ne_none _, ⟨_, _, rfl⟩, trivial⟩
  have hlatest := hclaim [0x61] 0 { durability := .transientLocal } rfl _ hreach rfl rfl _ rfl
  exact absurd hlatest.2 (by decide)

end DurableState

end EmbedMq
