import EmbedMq.Discovery.Announce
import EmbedMq.Discovery.Staleness
import Mathlib.Logic.Function.Basic

/-!
# Leaving the network

A node that is shut down says farewell, and the others forget it without publishing
its will. `Participant::shutdown` sends the FAREWELL first and stops the announcements
afterwards, so that an ANNOUNCE may still follow. A peer that gets it takes the node
for a new one, and publishes its will when it hears nothing more.

The node and its peers are modelled together. A step is a mutex-protected section or
an atomic access of the node, or the handling of one frame or one registry call by a
peer. The frames of the node reach each peer in the order in which they were
broadcast; frames of other nodes may be anything.
-/

namespace EmbedMq

/-- A peer that hears the node. -/
structure Listener where
  agent : DiscoveryAgent
  recvBufferSize : UInt32 := 2048
  /-- `UdpTransport::parseConfig` takes no smaller buffer. -/
  roomy : 64 ≤ recvBufferSize := by decide

/-- The registry call that a received datagram leads to. -/
def Listener.hears (listener : Listener) (source : Endpoint) (datagram : Bytes) :
    Option PeerRegistry.Call :=
  listener.agent.processFd listener.recvBufferSize source datagram

/-- What changes at the node and at its peers. -/
structure Neighborhood (β : Type) where
  /-- `DiscoveryAgent::start` was called. -/
  started : Bool := false
  /-- `Participant::Impl::running`. -/
  running : Bool := false
  /-- `DiscoveryAgent::running_`. -/
  announcing : Bool := false
  /-- `TimerWheel::running_`. -/
  timer : Bool := false
  /-- The timer thread is in the announce callback. -/
  ticking : Bool := false
  /-- The bus has a callback for changed topics. -/
  callback : Bool := true
  localTopics : List Bytes := []
  /-- `TransportManager::allLocalEndpoints`. -/
  endpoints : List Endpoint
  /-- There is an active transport that supports broadcast. -/
  multicast : Bool
  /-- The frames of the node that have not been handled yet. -/
  inbox : β → List Bytes := fun _ => []
  registry : β → PeerRegistry := fun _ => {}

namespace Neighborhood

inductive Action (β : Type) where
  | start
  | started
  | tick
  | ticked
  | topicsChanged (topics : List Bytes)
  | announceTopics (topics : List Bytes)
  | checkRunning
  | readTopics
  | readEndpoints (topics : List Bytes)
  | broadcastAnnounce (topics : List Bytes) (eps : List Endpoint)
  | shutdown
  | removeCallback
  | sendFarewell
  | stopDiscovery
  | stopTimer
  | joinTimer
  | stopBus
  | shutdownAll
  /-- A peer handles the next frame of the node. -/
  | deliver (b : β) (source : Endpoint)
  /-- A peer handles a frame of another node. -/
  | receive (b : β) (source : Endpoint) (data : Bytes)
  /-- A peer enters its registry. -/
  | enter (b : β) (call : PeerRegistry.Call)

variable {β : Type} [DecidableEq β]

section Model

variable (node : DiscoveryAgent) (peers : β → Listener)

/-- The registry call that a step of a peer makes. -/
def callOf (s : Neighborhood β) (b : β) : Action β → Option PeerRegistry.Call
  | .deliver c source =>
      if c = b then (s.inbox b).head?.bind ((peers b).hears source) else none
  | .receive c source data => if c = b then (peers b).hears source data else none
  | .enter c call => if c = b then some call else none
  | _ => none

/-- `TransportManager::broadcast`. -/
def broadcast (frame : Bytes) (s : Neighborhood β) : Neighborhood β :=
  if s.multicast then { s with inbox := fun b => s.inbox b ++ [frame] } else s

/-- A section of the registry of a peer. -/
def enter (now : Int) (b : β) (s : Neighborhood β) : Option PeerRegistry.Call →
    Outcome (Neighborhood β) (Action β) (β × PeerCallback)
  | none => { state := s }
  | some call =>
      let outcome := PeerRegistry.run now call (s.registry b)
      { state := { s with registry := Function.update s.registry b outcome.state }
        effects := outcome.effects.map fun callback => (b, callback)
        next := outcome.next.map (Action.enter b) }

def run (now : Int) : Action β → Neighborhood β →
    Outcome (Neighborhood β) (Action β) (β × PeerCallback)
  | .start, s =>
      if s.started then { state := s }
      else if node.enableLocalDiscovery then
        { state := { s with started := true, announcing := true, timer := true }
          next := [.readTopics, .started] }
      else { state := { s with started := true }, next := [.started] }
  | .started, s => { state := { s with running := true } }
  | .tick, s =>
      if s.timer && !s.ticking then
        { state := { s with ticking := true }, next := [.readTopics, .ticked] }
      else { state := s }
  | .ticked, s => { state := { s with ticking := false } }
  | .topicsChanged topics, s =>
      { state := s, next := if s.callback then [.announceTopics topics] else [] }
  | .announceTopics topics, s =>
      { state := { s with localTopics := topics }, next := [.checkRunning] }
  | .checkRunning, s => { state := s, next := if s.announcing then [.readTopics] else [] }
  | .readTopics, s => { state := s, next := [.readEndpoints s.localTopics] }
  | .readEndpoints topics, s => { state := s, next := [.broadcastAnnounce topics s.endpoints] }
  | .broadcastAnnounce topics eps, s => { state := s.broadcast (node.announceFrame topics eps) }
  | .shutdown, s =>
      if s.running then
        { state := { s with running := false }
          next := [.removeCallback, .sendFarewell, .stopDiscovery, .stopBus, .shutdownAll] }
      else { state := s }
  | .removeCallback, s => { state := { s with callback := false } }
  | .sendFarewell, s => { state := s.broadcast node.farewellFrame }
  | .stopDiscovery, s =>
      if s.announcing then { state := { s with announcing := false }, next := [.stopTimer] }
      else { state := s }
  | .stopTimer, s => { state := { s with timer := false }, next := [.joinTimer] }
  -- The thread that shuts the node down waits for the callback to return.
  | .joinTimer, s => { state := s, next := if s.ticking then [.joinTimer] else [] }
  | .stopBus, s => { state := s }
  | .shutdownAll, s => { state := { s with endpoints := [], multicast := false } }
  | .deliver b source, s =>
      enter now b { s with inbox := Function.update s.inbox b (s.inbox b).tail }
        ((s.inbox b).head?.bind ((peers b).hears source))
  | .receive b source data, s => enter now b s ((peers b).hears source data)
  | .enter b call, s => enter now b s (some call)

end Model

/-- The calls of the user and of the threads of the node, and what the peers do. -/
inductive Entry : List (Action β) → Prop
  | start : Entry [.start]
  | tick : Entry [.tick]
  | topicsChanged (topics : List Bytes) : Entry [.topicsChanged topics]
  | announceTopics (topics : List Bytes) : Entry [.announceTopics topics]
  | shutdown : Entry [.shutdown]
  | deliver (b : β) (source : Endpoint) : Entry [.deliver b source]
  | receive (b : β) (source : Endpoint) (data : Bytes) : Entry [.receive b source data]
  | checkTimeouts (b : β) (timeoutMs : UInt32) : Entry [.enter b (.checkTimeouts timeoutMs)]

/-! ### One step -/

section Step

variable {node : DiscoveryAgent} {peers : β → Listener} {now : Int} {s : Neighborhood β} {b : β}

/-- The frames of the node are broadcast to all peers at once and handled one by one. -/
theorem inbox_run (a : Action β) :
    (run node peers now a s).state.inbox b =
      match a with
      | .broadcastAnnounce topics eps =>
          if s.multicast then s.inbox b ++ [node.announceFrame topics eps] else s.inbox b
      | .sendFarewell => if s.multicast then s.inbox b ++ [node.farewellFrame] else s.inbox b
      | .deliver c _ => if c = b then (s.inbox b).tail else s.inbox b
      | _ => s.inbox b := by
  have hbroadcast : ∀ frame, (s.broadcast frame).inbox b =
      if s.multicast then s.inbox b ++ [frame] else s.inbox b := by
    intro frame
    rw [broadcast]
    split <;> rfl
  have henter : ∀ (t : Neighborhood β) c call, (enter now c t call).state.inbox = t.inbox := by
    intro t c call
    cases call <;> rfl
  cases a with
  | broadcastAnnounce topics eps => exact hbroadcast _
  | sendFarewell => exact hbroadcast _
  | deliver c source =>
      change (enter now c _ _).state.inbox b = if c = b then (s.inbox b).tail else s.inbox b
      rw [henter]
      by_cases hc : c = b
      · subst hc
        rw [if_pos rfl]
        exact Function.update_self ..
      · rw [if_neg hc]
        exact Function.update_of_ne (Ne.symm hc) ..
  | receive c source data => exact congrFun (henter _ _ _) b
  | enter c call => exact congrFun (henter _ _ _) b
  | start =>
      simp only [run]
      split
      · rfl
      · split <;> rfl
  | tick | shutdown | stopDiscovery =>
      simp only [run]
      split <;> rfl
  | _ => rfl

theorem enter_eq (t : Neighborhood β) (c : β) (call : Option PeerRegistry.Call) :
    (enter now c t call).state.registry b =
        (match (if c = b then call else none) with
        | some call => (PeerRegistry.run now call (t.registry b)).state
        | none => t.registry b) ∧
      ∀ callback, (b, callback) ∈ (enter now c t call).effects →
        ∃ made, (if c = b then call else none) = some made ∧
          callback ∈ (PeerRegistry.run now made (t.registry b)).effects := by
  cases call with
  | none =>
      rw [ite_self]
      exact ⟨rfl, fun callback hmem => absurd hmem List.not_mem_nil⟩
  | some call =>
      by_cases hc : c = b
      · subst hc
        rw [if_pos rfl]
        refine ⟨Function.update_self .., fun callback hmem => ⟨call, rfl, ?_⟩⟩
        obtain ⟨other, hother, heq⟩ := List.mem_map.mp hmem
        rw [← (Prod.mk.inj heq).2]
        exact hother
      · rw [if_neg hc]
        refine ⟨Function.update_of_ne (Ne.symm hc) .., fun callback hmem => ?_⟩
        obtain ⟨_, _, heq⟩ := List.mem_map.mp hmem
        exact absurd (Prod.mk.inj heq).1 hc

/-- A step works on the registry of a peer by its call, and by nothing else. -/
theorem registry_run (a : Action β) :
    (run node peers now a s).state.registry b =
        (match callOf peers s b a with
        | some call => (PeerRegistry.run now call (s.registry b)).state
        | none => s.registry b) ∧
      ∀ callback, (b, callback) ∈ (run node peers now a s).effects →
        ∃ call, callOf peers s b a = some call ∧
          callback ∈ (PeerRegistry.run now call (s.registry b)).effects := by
  -- The steps of the node and the steps of other peers make no call at this one.
  have hactor : ∀ (c : β) (call : β → Option PeerRegistry.Call),
      (if c = b then call b else none) = if c = b then call c else none := by
    intro c call
    by_cases hc : c = b
    · rw [hc]
    · rw [if_neg hc, if_neg hc]
  have hbroadcast : ∀ frame, (s.broadcast frame).registry = s.registry := by
    intro frame
    rw [broadcast]
    split <;> rfl
  cases a with
  | deliver c source =>
      rw [callOf, hactor c fun b => (s.inbox b).head?.bind ((peers b).hears source)]
      exact enter_eq _ c _
  | receive c source data =>
      rw [callOf, hactor c fun b => (peers b).hears source data]
      exact enter_eq s c _
  | enter c call => exact enter_eq s c (some call)
  | broadcastAnnounce topics eps =>
      exact ⟨congrFun (hbroadcast _) b, fun _ hmem => absurd hmem List.not_mem_nil⟩
  | sendFarewell => exact ⟨congrFun (hbroadcast _) b, fun _ hmem => absurd hmem List.not_mem_nil⟩
  | start =>
      simp only [run, callOf]
      split
      · exact ⟨rfl, fun _ hmem => absurd hmem List.not_mem_nil⟩
      · split <;> exact ⟨rfl, fun _ hmem => absurd hmem List.not_mem_nil⟩
  | tick | shutdown | stopDiscovery =>
      simp only [run, callOf]
      split <;> exact ⟨rfl, fun _ hmem => absurd hmem List.not_mem_nil⟩
  | _ => exact ⟨rfl, fun _ hmem => absurd hmem List.not_mem_nil⟩

end Step

end Neighborhood

/-- Any number of calls in progress at the node and at its peers. -/
abbrev Neighborhoods (β : Type) := Threads (Neighborhood β) Int (Neighborhood.Action β)

abbrev NeighborhoodEvent (β : Type) := Event (Neighborhood β) Int (Neighborhood.Action β)

namespace Neighborhoods

open Neighborhood (Entry run callOf)

variable {β : Type}

/-! ### The frames of the node -/

section Model

variable (node : DiscoveryAgent)

/-- A peer handles the FAREWELL of the node. -/
def Processed (b : β) (e : NeighborhoodEvent β) : Prop :=
  (∃ source, e.action = .deliver b source) ∧ (e.before.inbox b).head? = some node.farewellFrame

/-- The FAREWELL was broadcast. -/
def Departed (log : List (NeighborhoodEvent β)) : Prop :=
  ∃ e ∈ log, e.action = .sendFarewell ∧ e.before.multicast = true

/-- A node that has a will announces nothing after its FAREWELL. -/
def Silent (s : Neighborhoods β) : Threads.Label Int (Neighborhood.Action β) → Prop
  | .start _ => True
  | .step i _ => ∀ topics eps rest, s.calls[i]? = some (.broadcastAnnounce topics eps :: rest) →
      node.hasWill = true → s.shared.multicast = true → ¬ Departed s.log

/-- What a peer still has to handle: only frames of the node, and nothing but farewells after
a FAREWELL if the node has a will. -/
structure Orderly (s : Neighborhoods β) (b : β) : Prop where
  frames : ∀ frame ∈ s.shared.inbox b,
    frame = node.farewellFrame ∨ ∃ topics eps, frame = node.announceFrame topics eps
  pending : node.farewellFrame ∈ s.shared.inbox b → Departed s.log
  order : node.hasWill = true → (s.shared.inbox b).Pairwise fun x y =>
    x = node.farewellFrame → y = node.farewellFrame
  processed : node.hasWill = true → (∃ f ∈ s.log, Processed node b f) →
    Departed s.log ∧ ∀ frame ∈ s.shared.inbox b, frame = node.farewellFrame

end Model

variable {node : DiscoveryAgent} {s : Neighborhoods β} {b : β}

theorem Departed.cons {log : List (NeighborhoodEvent β)} (h : Departed log)
    (e : NeighborhoodEvent β) : Departed (e :: log) := by
  obtain ⟨d, hmem, hd⟩ := h
  exact ⟨d, List.mem_cons_of_mem _ hmem, hd⟩

theorem announceFrame_ne (topics : List Bytes) (eps : List Endpoint) :
    node.announceFrame topics eps ≠ node.farewellFrame := by
  intro heq
  have hfarewell := MessageCodec.decode_encode
    (DiscoveryAgent.frameArgs_encodable node .farewell) 0 .bits64
  have hvalid : (MessageCodec.decode .bits64 (node.announceFrame topics eps)).valid = true := by
    rw [heq, DiscoveryAgent.farewellFrame, hfarewell]
  have hannounce := MessageCodec.decode_encode (MessageCodec.encodable_of_valid hvalid) 0 .bits64
  have hsame := congrArg (fun frame =>
    MessageType.ofByte (MessageCodec.decode .bits64 frame).header.msgType) heq
  simp only [DiscoveryAgent.announceFrame, DiscoveryAgent.farewellFrame] at hsame
  rw [hannounce, hfarewell] at hsame
  simp only [MessageCodec.encodedHeader_type] at hsame
  cases hsame

section Channel

variable {t : Neighborhoods β} {e : NeighborhoodEvent β} (hlog : t.log = e :: s.log)
include hlog

theorem processed_cons (hquiet : ¬ Processed node b e) (h : ∃ f ∈ t.log, Processed node b f) :
    ∃ f ∈ s.log, Processed node b f := by
  obtain ⟨f, hmem, hf⟩ := h
  rw [hlog] at hmem
  obtain rfl | hmem := List.mem_cons.mp hmem
  · exact absurd hf hquiet
  · exact ⟨f, hmem, hf⟩

theorem Orderly.keep (h : Orderly node s b) (hquiet : ¬ Processed node b e)
    (hinbox : t.shared.inbox b = s.shared.inbox b) : Orderly node t b where
  frames := by
    rw [hinbox]
    exact h.frames
  pending := by
    rw [hinbox, hlog]
    exact fun hmem => (h.pending hmem).cons e
  order := by
    rw [hinbox]
    exact h.order
  processed := by
    intro hwill hprocessed
    obtain ⟨hdeparted, hrest⟩ := h.processed hwill (processed_cons hlog hquiet hprocessed)
    rw [hinbox, hlog]
    exact ⟨hdeparted.cons e, hrest⟩

/-- An ANNOUNCE may follow before the FAREWELL is broadcast. -/
theorem Orderly.announce (h : Orderly node s b) (hquiet : ¬ Processed node b e)
    (hearly : node.hasWill = true → ¬ Departed s.log) {topics : List Bytes} {eps : List Endpoint}
    (hinbox : t.shared.inbox b = s.shared.inbox b ++ [node.announceFrame topics eps]) :
    Orderly node t b where
  frames := by
    intro frame hmem
    rw [hinbox] at hmem
    obtain hold | hnew := List.mem_append.mp hmem
    · exact h.frames frame hold
    · exact Or.inr ⟨topics, eps, List.mem_singleton.mp hnew⟩
  pending := by
    intro hmem
    rw [hinbox] at hmem
    obtain hold | hnew := List.mem_append.mp hmem
    · rw [hlog]
      exact (h.pending hold).cons e
    · exact absurd (List.mem_singleton.mp hnew).symm (announceFrame_ne topics eps)
  order := by
    intro hwill
    rw [hinbox]
    refine List.pairwise_append.mpr ⟨h.order hwill, List.pairwise_singleton _ _, ?_⟩
    intro x hx y _ hfarewell
    rw [hfarewell] at hx
    exact absurd (h.pending hx) (hearly hwill)
  processed := by
    intro hwill hprocessed
    have hdeparted := (h.processed hwill (processed_cons hlog hquiet hprocessed)).1
    exact absurd hdeparted (hearly hwill)

theorem Orderly.farewell (h : Orderly node s b) (hquiet : ¬ Processed node b e)
    (hdeparted : Departed t.log)
    (hinbox : t.shared.inbox b = s.shared.inbox b ++ [node.farewellFrame]) :
    Orderly node t b where
  frames := by
    intro frame hmem
    rw [hinbox] at hmem
    obtain hold | hnew := List.mem_append.mp hmem
    · exact h.frames frame hold
    · exact Or.inl (List.mem_singleton.mp hnew)
  pending := fun _ => hdeparted
  order := by
    intro hwill
    rw [hinbox]
    refine List.pairwise_append.mpr ⟨h.order hwill, List.pairwise_singleton _ _, ?_⟩
    intro _ _ y hy _
    exact List.mem_singleton.mp hy
  processed := by
    intro hwill hprocessed
    obtain ⟨_, hrest⟩ := h.processed hwill (processed_cons hlog hquiet hprocessed)
    refine ⟨hdeparted, fun frame hmem => ?_⟩
    rw [hinbox] at hmem
    obtain hold | hnew := List.mem_append.mp hmem
    · exact hrest frame hold
    · exact List.mem_singleton.mp hnew

theorem Orderly.deliver (h : Orderly node s b) (hbefore : e.before = s.shared)
    (hinbox : t.shared.inbox b = (s.shared.inbox b).tail) : Orderly node t b where
  frames := by
    intro frame hmem
    rw [hinbox] at hmem
    exact h.frames frame (List.mem_of_mem_tail hmem)
  pending := by
    intro hmem
    rw [hinbox] at hmem
    rw [hlog]
    exact (h.pending (List.mem_of_mem_tail hmem)).cons e
  order := by
    rw [hinbox]
    exact fun hwill => (h.order hwill).sublist (List.tail_sublist _)
  processed := by
    intro hwill hprocessed
    rw [hinbox, hlog]
    by_cases hnow : Processed node b e
    · -- The frame that was handled is the FAREWELL, and the order says what is behind it.
      have hhead : (s.shared.inbox b).head? = some node.farewellFrame := by
        rw [← hbefore]
        exact hnow.2
      obtain ⟨rest, hcons⟩ := List.head?_eq_some_iff.mp hhead
      have horder := h.order hwill
      rw [hcons, List.pairwise_cons] at horder
      rw [hcons, List.tail_cons]
      refine ⟨(h.pending ?_).cons e, fun frame hmem => horder.1 frame hmem rfl⟩
      rw [hcons]
      exact List.mem_cons_self
    · obtain ⟨hdeparted, hrest⟩ := h.processed hwill (processed_cons hlog hnow hprocessed)
      exact ⟨hdeparted.cons e, fun frame hmem => hrest frame (List.mem_of_mem_tail hmem)⟩

end Channel

variable [DecidableEq β]

section Model

variable (node : DiscoveryAgent) (peers : β → Listener)

/-- All runs from before the node is started. -/
def system : TransitionSystem (Neighborhoods β) (Threads.Label Int (Neighborhood.Action β)) :=
  Threads.system (run node peers)
    (fun s => ∃ endpoints multicast, s = { endpoints, multicast }) Entry

/-- The peer record that an event puts into the registry of a peer. -/
def written (b : β) (e : NeighborhoodEvent β) : Option PeerInfo :=
  match callOf peers e.before b e.action with
  | some (.addOrUpdate peer) => some peer
  | _ => none

/-- The event puts a record under an id into the registry of a peer. -/
def writes (b : β) (id : UInt16) (e : NeighborhoodEvent β) : Bool :=
  (written peers b e).any fun peer => decide (peer.id = id)

/-- The record under an id at a peer was last written by a frame of the node. -/
def OfNode (log : List (NeighborhoodEvent β)) (b : β) (id : UInt16) : Prop :=
  ∃ w source, log.find? (writes peers b id) = some w ∧ w.action = .deliver b source

/-- A peer that has handled the FAREWELL does not publish the will of the node. -/
def Graceful (s : Neighborhoods β) : Prop :=
  ∀ post e pre b peer, s.log = post ++ e :: pre →
    (b, .will peer) ∈ (e.outcome (run node peers)).effects →
    (∃ f ∈ pre, Processed node b f) → ¬ OfNode peers pre b peer.id

end Model

variable {peers : β → Listener}

theorem orderly_stepped {i : Nat} {now : Int} {a : Neighborhood.Action β}
    {rest : List (Neighborhood.Action β)} (hcall : s.calls[i]? = some (a :: rest))
    (hcond : Silent node s (.step i now)) (h : Orderly node s b) :
    Orderly node (s.stepped (run node peers) i now a rest) b := by
  have hinbox : (s.stepped (run node peers) i now a rest).shared.inbox b = _ :=
    Neighborhood.inbox_run a
  have hlog : (s.stepped (run node peers) i now a rest).log = ⟨i, s.shared, now, a⟩ :: s.log := rfl
  -- Only a delivery handles a frame of the node.
  have hquiet : (∀ source, a ≠ .deliver b source) → ¬ Processed node b ⟨i, s.shared, now, a⟩ := by
    rintro hnot ⟨⟨source, hdeliver⟩, _⟩
    exact hnot source hdeliver
  cases a with
  | broadcastAnnounce topics eps =>
      have hnot := hquiet (by simp)
      by_cases hmulticast : s.shared.multicast = true
      · dsimp only at hinbox
        rw [if_pos hmulticast] at hinbox
        have hearly := fun hwill => hcond topics eps rest hcall hwill hmulticast
        exact h.announce hlog hnot hearly hinbox
      · dsimp only at hinbox
        rw [if_neg hmulticast] at hinbox
        exact h.keep hlog hnot hinbox
  | sendFarewell =>
      have hnot := hquiet (by simp)
      by_cases hmulticast : s.shared.multicast = true
      · dsimp only at hinbox
        rw [if_pos hmulticast] at hinbox
        exact h.farewell hlog hnot ⟨_, List.mem_cons_self, rfl, hmulticast⟩ hinbox
      · dsimp only at hinbox
        rw [if_neg hmulticast] at hinbox
        exact h.keep hlog hnot hinbox
  | deliver c source =>
      dsimp only at hinbox
      by_cases hc : c = b
      · rw [if_pos hc] at hinbox
        exact h.deliver hlog rfl hinbox
      · rw [if_neg hc] at hinbox
        refine h.keep hlog (hquiet fun other heq => ?_) hinbox
        exact hc (Neighborhood.Action.deliver.inj heq).1
  | _ => exact h.keep hlog (hquiet (by simp)) hinbox

theorem orderly (h : ((system node peers).restrict (Silent node)).Reachable s) (b : β) :
    Orderly node s b := by
  refine Threads.invariant (motive := fun s => Orderly node s b) h ?_ ?_ ?_
  · rintro s ⟨endpoints, multicast, hs⟩ _ hlog
    have hinbox : s.shared.inbox b = [] := by rw [hs]
    constructor
    · simp [hinbox]
    · simp [hinbox]
    · simp [hinbox]
    · simp [hlog]
  · intro s actions _ hinv _ _
    exact ⟨hinv.frames, hinv.pending, hinv.order, hinv.processed⟩
  · intro s i now a rest _ hinv hcall hcond
    exact orderly_stepped hcall hcond hinv

/-! ### Where a record comes from -/

/-- Every record at a peer is what the last event to write it has written. -/
def Recorded (peers : β → Listener) (s : Neighborhoods β) : Prop :=
  ∀ b id rec, (s.shared.registry b).records.lookup id = some rec →
    rec.info.id = id ∧ ∃ w, s.log.find? (writes peers b id) = some w ∧
      written peers b w = some rec.info

theorem recorded {cond : Neighborhoods β → Threads.Label Int (Neighborhood.Action β) → Prop}
    (h : ((system node peers).restrict cond).Reachable s) : Recorded peers s := by
  refine Threads.invariant (motive := Recorded peers) h ?_ ?_ ?_
  · rintro s ⟨endpoints, multicast, hs⟩ _ _ b id rec hrec
    rw [hs] at hrec
    cases hrec
  · intro s actions _ hinv _ _
    exact hinv
  · intro s i now a rest _ hinv _ _ b id rec hrec
    have hregistry : (s.stepped (run node peers) i now a rest).shared.registry b = _ :=
      (Neighborhood.registry_run a).1
    rw [hregistry] at hrec
    change _ ∧ ∃ w, List.find? (writes peers b id) (⟨i, s.shared, now, a⟩ :: s.log) = some w ∧ _
    cases hcallOf : callOf peers s.shared b a with
    | none =>
        have hnot : writes peers b id ⟨i, s.shared, now, a⟩ = false := by
          simp only [writes, written, hcallOf, Option.any_none]
        rw [hcallOf] at hrec
        rw [List.find?_cons_of_neg (by rw [hnot]; exact Bool.false_ne_true)]
        exact hinv b id rec hrec
    | some call =>
        rw [hcallOf] at hrec
        obtain ⟨rfl, hid⟩ | ⟨hother, old, hold, hinfo, _⟩ := PeerRegistry.lookup_run hrec
        · have hwritten : written peers b ⟨i, s.shared, now, a⟩ = some rec.info := by
            simp only [written, hcallOf]
          have hwrites : writes peers b id ⟨i, s.shared, now, a⟩ = true := by
            rw [writes, hwritten]
            exact decide_eq_true hid
          exact ⟨hid, _, List.find?_cons_of_pos hwrites, hwritten⟩
        · have hnot : writes peers b id ⟨i, s.shared, now, a⟩ = false := by
            cases call with
            | addOrUpdate peer =>
                simp only [writes, written, hcallOf, Option.any_some]
                exact decide_eq_false (hother peer rfl)
            | _ => simp only [writes, written, hcallOf, Option.any_none]
          rw [List.find?_cons_of_neg (by rw [hnot]; exact Bool.false_ne_true), ← hinfo]
          exact hinv b id old hold

/-! ### No will after the farewell -/

/-- A frame of the node that writes a record is an ANNOUNCE. -/
theorem deliver_written {e : NeighborhoodEvent β} {source : Endpoint} {peer : PeerInfo}
    (hframes : ∀ frame ∈ e.before.inbox b,
      frame = node.farewellFrame ∨ ∃ topics eps, frame = node.announceFrame topics eps)
    (haction : e.action = .deliver b source) (h : written peers b e = some peer) :
    node.nodeId ≠ (peers b).agent.nodeId ∧ peer.id = node.nodeId ∧
      (node.hasWill = false → peer.hasWill = false) ∧
      ∃ frame, (e.before.inbox b).head? = some frame ∧ frame ≠ node.farewellFrame := by
  unfold written at h
  rw [haction, callOf, if_pos rfl] at h
  split at h
  · rename_i other hheard
    obtain rfl := Option.some.inj h
    obtain ⟨frame, hhead, hheard⟩ := Option.bind_eq_some_iff.mp hheard
    have hmem := List.mem_of_mem_head? hhead
    obtain hframe | ⟨topics, eps, hframe⟩ := hframes frame hmem
    · rw [hframe, Listener.hears, DiscoveryAgent.processFd_farewell (peers b).roomy] at hheard
      split at hheard
      · cases hheard
      · cases hheard
    · rw [hframe] at hheard hhead
      obtain ⟨hself, peer, heq, hid, hno⟩ := DiscoveryAgent.processFd_announce hheard
      obtain rfl := PeerRegistry.Call.addOrUpdate.inj heq
      exact ⟨hself, hid, hno, _, hhead, announceFrame_ne topics eps⟩
  · cases h

/-- Handling the FAREWELL leaves no record of the node. -/
theorem processed_lookup {f : NeighborhoodEvent β} (h : Processed node b f)
    (hself : node.nodeId ≠ (peers b).agent.nodeId) :
    ((f.outcome (run node peers)).state.registry b).records.lookup node.nodeId = none := by
  obtain ⟨⟨source, haction⟩, hhead⟩ := h
  have hcall : callOf peers f.before b f.action = some (.remove node.nodeId false) := by
    rw [haction, callOf, if_pos rfl, hhead, Option.bind_some, Listener.hears,
      DiscoveryAgent.processFd_farewell (peers b).roomy, if_neg hself]
  rw [Event.outcome, (Neighborhood.registry_run f.action).1, hcall]
  change ((f.before.registry b).remove node.nodeId false).1.records.lookup node.nodeId = none
  rw [PeerRegistry.remove]
  split
  · assumption
  · exact AList.lookup_erase ..

/-- An event that does not write a record under an id leaves none where there was none. -/
theorem lookup_outcome {e : NeighborhoodEvent β} {id : UInt16}
    (hquiet : writes peers b id e = false)
    (h : (e.before.registry b).records.lookup id = none) :
    ((e.outcome (run node peers)).state.registry b).records.lookup id = none := by
  rw [Event.outcome, (Neighborhood.registry_run e.action).1]
  cases hcall : callOf peers e.before b e.action with
  | none => exact h
  | some call =>
      cases hlookup : (PeerRegistry.run e.input call (e.before.registry b)).state.records.lookup
          id with
      | none => rfl
      | some rec =>
          obtain ⟨rfl, hid⟩ | ⟨_, old, hold, _⟩ := PeerRegistry.lookup_run hlookup
          · simp only [writes, written, hcall, Option.any_some, hid, decide_true] at hquiet
            exact absurd hquiet.symm Bool.false_ne_true
          · rw [h] at hold
            cases hold

/-- In every run in which a node with a will announces nothing after its FAREWELL, no peer that
has handled the FAREWELL publishes that will. -/
theorem farewell_graceful (h : ((system node peers).restrict (Silent node)).Reachable s) :
    Graceful node peers s := by
  rintro post e pre b peer hlog hwill ⟨f, hf, hprocessed⟩ ⟨w, source, hfind, haction⟩
  obtain ⟨t, _, hreach, rfl, hshared, _, _⟩ := Threads.event_origin h hlog
  obtain ⟨call, _, hcallback⟩ := (Neighborhood.registry_run e.action).2 _ hwill
  obtain ⟨hhas, id, rec, hrec, rfl⟩ := PeerRegistry.will_run hcallback
  rw [← hshared] at hrec
  obtain ⟨hid, w', hfind', hwritten⟩ := recorded hreach b id rec hrec
  rw [hid] at hfind
  obtain rfl := Option.some.inj (hfind.symm.trans hfind')
  obtain ⟨_, later, earlier, hsplit, hlater⟩ := List.find?_eq_some_iff_append.mp hfind
  -- The frame that wrote the record is an ANNOUNCE with a will.
  obtain ⟨u, _, hureach, rfl, hushared, _, _⟩ := Threads.event_origin hreach hsplit
  have hframes := (orderly hureach b).frames
  rw [hushared] at hframes
  obtain ⟨hself, hnode, hno, frame, hhead, hne⟩ := deliver_written hframes haction hwritten
  have hnodeWill : node.hasWill = true := by
    by_contra hnone
    rw [hno (Bool.not_eq_true _ ▸ hnone)] at hhas
    exact absurd hhas Bool.false_ne_true
  rw [hsplit] at hf
  obtain hf | hf := List.mem_append.mp hf
  · -- The FAREWELL came later, and nothing has written the record again.
    obtain ⟨recent, before, rfl⟩ := List.append_of_mem hf
    have hlogged : t.log = recent ++ f :: (before ++ w :: u.log) := by
      rw [hsplit, List.append_assoc, List.cons_append]
    have hgone : (t.shared.registry b).records.lookup node.nodeId = none := by
      refine Threads.since (fun n => (n.registry b).records.lookup node.nodeId = none)
        hreach hlogged (processed_lookup hprocessed hself) fun x hx => lookup_outcome ?_
      have hquiet := hlater x (List.mem_append_left _ hx)
      rw [← hid, hnode] at hquiet
      simpa using hquiet
    rw [← hid, hnode, hgone] at hrec
    cases hrec
  · obtain rfl | hf := List.mem_cons.mp hf
    · exact hne (Option.some.inj (hhead.symm.trans hprocessed.2))
    · -- The FAREWELL came first, so only farewells were left to handle.
      have honly := ((orderly hureach b).processed hnodeWill ⟨f, hf, hprocessed⟩).2
      rw [hushared] at honly
      exact hne (honly frame (List.mem_of_mem_head? hhead))

/-! ### Two ways to leave -/

/-- A node with a will. -/
def leaver : DiscoveryAgent where
  nodeId := 1
  nodeName := [0x61]
  hostName := []
  lastWill := { topic := [0x77], payload := [0x01], enabled := true }

/-- The only peer. -/
def stayer : Unit → Listener := fun _ =>
  { agent := { nodeId := 2, nodeName := [0x62], hostName := [] } }

def address : Endpoint where
  address := [0x31]
  port := 19900
  transportType := MessageBus.udp

/-- A call runs a number of steps at a time. -/
def steps (i count : Nat) (now : Int) : List (Threads.Label Int (Neighborhood.Action Unit)) :=
  List.replicate count (.step i now)

/-- The peer handles the next frame. -/
def handles (i : Nat) (now : Int) : List (Threads.Label Int (Neighborhood.Action Unit)) :=
  [.start [.deliver () address], .step i now]

/-- The node is started, and its peer gets to know it. -/
def arrival : List (Threads.Label Int (Neighborhood.Action Unit)) :=
  List.flatten [[.start [.start]], steps 0 5 0, handles 1 0]

/-- The peer handles what has come and looks for silent peers twenty seconds later. -/
def aftermath : List (Threads.Label Int (Neighborhood.Action Unit)) :=
  List.flatten [handles 4 1000000000, handles 5 1000000000,
    [.start [.enter () (.checkTimeouts 10000)]], steps 6 1 20000000000]

/-- The timer announces the node before it says farewell. -/
def orderlyRun : List (Threads.Label Int (Neighborhood.Action Unit)) :=
  List.flatten [arrival, [.start [.shutdown]], steps 2 2 1000000000, [.start [.tick]],
    steps 3 5 1000000000, steps 2 6 1000000000, aftermath]

/-- The timer announces the node between the farewell and the end of the announcements. -/
def hastyRun : List (Threads.Label Int (Neighborhood.Action Unit)) :=
  List.flatten [arrival, [.start [.shutdown]], steps 2 3 1000000000, [.start [.tick]],
    steps 3 5 1000000000, steps 2 5 1000000000, aftermath, steps 6 1 20000000000]

def afterRun (labels : List (Threads.Label Int (Neighborhood.Action Unit))) : Neighborhoods Unit :=
  labels.foldl (Threads.next (run leaver stayer)) ⟨{ endpoints := [], multicast := true }, [], []⟩

def departs (e : NeighborhoodEvent Unit) : Bool :=
  match e.action with
  | .sendFarewell => e.before.multicast
  | _ => false

def silentCheck (s : Neighborhoods Unit) : Threads.Label Int (Neighborhood.Action Unit) → Bool
  | .start _ => true
  | .step i _ =>
      match s.calls[i]? with
      | some (.broadcastAnnounce _ _ :: _) => !s.log.any departs
      | _ => true

theorem silent_of_check (s : Neighborhoods Unit) (l : Threads.Label Int (Neighborhood.Action Unit))
    (h : silentCheck s l = true) : Silent leaver s l := by
  cases l with
  | start actions => trivial
  | step i now =>
      rintro topics eps rest hcall _ _ ⟨e, hmem, haction, hmulticast⟩
      simp only [silentCheck, hcall, Bool.not_eq_true', List.any_eq_false] at h
      refine h e hmem ?_
      simp only [departs, haction, hmulticast]

/-- The peer handles the FAREWELL. -/
def handlesFarewell (e : NeighborhoodEvent Unit) : Bool :=
  match e.action with
  | .deliver _ _ => decide ((e.before.inbox ()).head? = some leaver.farewellFrame)
  | _ => false

theorem processed_of_handles {e : NeighborhoodEvent Unit} (h : handlesFarewell e = true) :
    Processed leaver () e := by
  unfold handlesFarewell at h
  split at h
  · rename_i source haction
    exact ⟨⟨source, haction⟩, of_decide_eq_true h⟩
  · exact absurd h Bool.false_ne_true

theorem entry_of_mem {actions : List (Neighborhood.Action Unit)}
    (h : .start actions ∈ orderlyRun ∨ .start actions ∈ hastyRun) : Entry actions := by
  simp only [orderlyRun, hastyRun, arrival, aftermath, handles, steps, List.flatten_cons,
    List.flatten_nil, List.mem_append, List.mem_cons, List.mem_replicate, List.not_mem_nil,
    Threads.Label.start.injEq, reduceCtorEq, and_false, or_false, false_or] at h
  have hcases : actions = [.start] ∨ actions = [.deliver () address] ∨ actions = [.shutdown] ∨
      actions = [.tick] ∨ actions = [.enter () (.checkTimeouts 10000)] := by tauto
  obtain rfl | rfl | rfl | rfl | rfl := hcases
  · exact .start
  · exact .deliver _ _
  · exact .shutdown
  · exact .tick
  · exact .checkTimeouts _ _

/-- The last section of a run publishes the will of a record that the node has announced, and
the FAREWELL was handled before. -/
def breaksFarewell (s : Neighborhoods Unit) : Bool :=
  match s.log with
  | e :: pre => pre.any handlesFarewell &&
      (e.outcome (run leaver stayer)).effects.any fun effect =>
        match effect.2 with
        | .will peer =>
            match pre.find? (writes stayer () peer.id) with
            | some w =>
                match w.action with
                | .deliver _ _ => true
                | _ => false
            | none => false
        | _ => false
  | [] => false

theorem not_graceful {s : Neighborhoods Unit} (h : breaksFarewell s = true) :
    ¬ Graceful leaver stayer s := by
  intro hgraceful
  unfold breaksFarewell at h
  split at h
  · rename_i e pre hlog
    obtain ⟨hany, heffect⟩ := Bool.and_eq_true_iff.mp h
    obtain ⟨f, hf, hhandles⟩ := List.any_eq_true.mp hany
    obtain ⟨⟨⟨⟩, callback⟩, hmem, hwill⟩ := List.any_eq_true.mp heffect
    split at hwill
    · rename_i peer hcallback
      obtain rfl := hcallback
      split at hwill
      · rename_i w hfind
        split at hwill
        · rename_i source haction
          exact hgraceful [] e pre () peer hlog hmem ⟨f, hf, processed_of_handles hhandles⟩
            ⟨w, source, hfind, haction⟩
        · exact absurd hwill Bool.false_ne_true
      · exact absurd hwill Bool.false_ne_true
    · exact absurd hwill Bool.false_ne_true
  · exact absurd h Bool.false_ne_true

theorem farewell_graceful_orderly :
    Graceful leaver stayer (afterRun orderlyRun) ∧
      (afterRun orderlyRun).log.any handlesFarewell = true := by
  have hreach : ((system leaver stayer).restrict (Silent leaver)).Reachable
      (afterRun orderlyRun) :=
    Threads.reachable_of_runs (.init ⟨⟨[], true, rfl⟩, rfl, rfl⟩) (by decide +kernel)
      (fun _ hmem => entry_of_mem (Or.inl hmem))
      (Threads.along_of_checks silent_of_check (by decide +kernel))
  exact ⟨farewell_graceful hreach, by decide +kernel⟩

/-- An ANNOUNCE that follows the FAREWELL makes the peer publish the will of a node that has left
in order. -/
theorem farewell_not_graceful :
    ¬ ∀ s, (system leaver stayer).Reachable s → Graceful leaver stayer s := by
  intro hclaim
  have hreach : ((system leaver stayer).restrict fun _ _ => True).Reachable (afterRun hastyRun) :=
    Threads.reachable_of_runs (.init ⟨⟨[], true, rfl⟩, rfl, rfl⟩) (by decide +kernel)
      (fun _ hmem => entry_of_mem (Or.inr hmem)) (Threads.along_true _)
  exact not_graceful (by decide +kernel) (hclaim _ hreach.of_restrict)

end Neighborhoods

end EmbedMq
