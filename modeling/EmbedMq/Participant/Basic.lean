import EmbedMq.Bus.Services
import EmbedMq.Discovery.Announce
import EmbedMq.Discovery.Traces
import EmbedMq.Network.Basic

/-!
# Participants

`Participant` of `participant.cpp`: the message bus, the discovery agent with its peer
registry, and the callbacks that `Impl::init` installs between them. Each call of a
participant, each received datagram and each run of a timer is one atomic step here; how the
sections of concurrent calls interleave is looked at for each component by itself.

The effects of a step are the calls it makes into the bus, each with what the bus does in it, the
frames it broadcasts, and what the user's peer event callback is told, in order.
-/

namespace EmbedMq

/-- The fields of `ParticipantConfig` that the participant itself reads, with their defaults. -/
structure ParticipantConfig where
  peerTimeoutMs : UInt32 := 10000
  enableChecksum : Bool := true
  retainedTtlMs : UInt32 := 600000
  retainedMaxCount : UInt32 := 0

inductive NodeEffect where
  /-- An entry point of the bus is called. -/
  | called (call : MessageBus.Call) (effects : List Effect)
  /-- A frame is handed to the transports that support broadcast. -/
  | broadcast (frame : Bytes)
  /-- `peerEventCb` is called. -/
  | peerEvent (id : UInt16) (name : Bytes) (online : Bool)

structure Participant where
  agent : DiscoveryAgent
  config : ParticipantConfig := {}
  /-- `TransportManager::allLocalEndpoints`. -/
  endpoints : List Endpoint := []
  registry : PeerRegistry := {}
  bus : MessageBus
  /-- `DiscoveryAgent::localTopics_`. -/
  localTopics : List Bytes := []
  /-- `DiscoveryAgent::running_`. -/
  announcing : Bool := false
  /-- The bus has a callback for changed topics. -/
  topicsChangedCb : Bool := false
  /-- `Impl::init` was called. -/
  created : Bool := false
  running : Bool := false

namespace Participant

/-- What a part of a step does. -/
abbrev Action := Participant → Participant × List NodeEffect

/-- One part of a step after another. -/
def Action.andThen (first second : Action) : Action := fun p =>
  ((second (first p).1).1, (first p).2 ++ (second (first p).1).2)

/-- A part that changes fields of the participant. -/
def modify (f : Participant → Participant) : Action := fun p => (f p, [])

variable (env : Env)

def callBus (call : MessageBus.Call) : Action := fun p =>
  ({ p with bus := (p.bus.exec env call).1 }, [.called call (p.bus.exec env call).2])

/-! ### Announcing -/

/-- `TransportManager::broadcast`. UDP is the transport that supports it. -/
def broadcast (frame : Bytes) : Action := fun p =>
  (p, if env.active MessageBus.udp then [.broadcast frame] else [])

def sendAnnounce : Action := fun p =>
  broadcast env (p.agent.announceFrame p.localTopics p.endpoints) p

def sendFarewell : Action := fun p => broadcast env p.agent.farewellFrame p

/-- `if (running_) sendAnnounce()`. -/
def announceIfRunning : Action := fun p =>
  if p.announcing then sendAnnounce env p else (p, [])

/-- `DiscoveryAgent::announceTopics`. -/
def announceTopics (topics : List Bytes) : Action :=
  (modify fun p => { p with localTopics := topics }).andThen (announceIfRunning env)

def notifyTopicsChanged : Action := fun p =>
  if p.topicsChangedCb then announceTopics env p.bus.localTopics p else (p, [])

/-- `announceTopics(messageBus->localTopics())`. -/
def announceLocalTopics : Action := fun p => announceTopics env p.bus.localTopics p

/-! ### Peers -/

def peerEvent (id : UInt16) (name : Bytes) (online : Bool) : Action := fun p =>
  (p, [.peerEvent id name online])

/-- The callbacks that `init` hands to the discovery agent. -/
def onPeer : PeerCallback → Action
  | .discovered peer =>
      (callBus env (.peerDiscovered peer)).andThen (peerEvent peer.id peer.name true)
  | .updated peer => callBus env (.peerUpdated peer)
  | .will peer =>
      callBus env (.deliverWill peer.willTopic peer.willPayload peer.willRetain peer.id)
  | .lost id name => (callBus env (.peerLost id)).andThen (peerEvent id name false)

def onPeers : List PeerCallback → Action
  | [] => fun p => (p, [])
  | cb :: rest => (onPeer env cb).andThen (onPeers rest)

/-- A call of the registry, with the callbacks it leads to. -/
def callRegistry (call : PeerRegistry.Call) : Action := fun p =>
  let (registry, callbacks) := PeerRegistry.perform env.now call p.registry
  (modify fun p => { p with registry }).andThen (onPeers env callbacks) p

def checkPeerTimeouts : Action := fun p =>
  callRegistry env (.checkTimeouts p.config.peerTimeoutMs) p

/-! ### Receiving -/

def onDiscoveryMessage (source : Endpoint) (data : Bytes) : Action := fun p =>
  match p.agent.onDiscoveryMessage source data with
  | some call => callRegistry env call p
  | none => (p, [])

/-- The fixed part of the header is checked, and the type decides who gets the datagram. -/
def Admitted (data : Bytes) : Prop :=
  MessageCodec.headerBaseSize ≤ data.length ∧ data.getD 0 0 = MessageCodec.magic.toUInt8 ∧
    data.getD 1 0 = (MessageCodec.magic >>> 8).toUInt8 ∧ data.getD 2 0 = MessageCodec.version

instance (data : Bytes) : Decidable (Admitted data) := inferInstanceAs (Decidable (_ ∧ _))

/-- The callback that `init` hands to the transports. -/
def recvCallback (source : Endpoint) (data : Bytes) : Action := fun p =>
  if Admitted data then
    if DiscoveryAgent.isDiscovery (MessageType.ofByte (data.getD 3 0)) then
      onDiscoveryMessage env source data p
    else callBus env (.received source data) p
  else (p, [])

/-! ### Starting and stopping -/

/-- `DiscoveryAgent::start`. -/
def startDiscovery : Action := fun p =>
  if p.agent.enableLocalDiscovery then
    (modify fun p => { p with announcing := true }).andThen (sendAnnounce env) p
  else (p, [])

/-- `Impl::init`, once the transports are initialised. -/
def init : Action := fun p =>
  (callBus env (.setChecksumEnabled p.config.enableChecksum)).andThen
    ((callBus env (.setRetainedLimits p.config.retainedTtlMs p.config.retainedMaxCount)).andThen
      ((modify fun p => { p with topicsChangedCb := true }).andThen
        ((startDiscovery env).andThen
          ((callBus env .start).andThen
            (modify fun p => { p with created := true, running := true }))))) p

def shutdown : Action := fun p =>
  if p.running then
    (modify fun p => { p with running := false, topicsChangedCb := false }).andThen
      ((sendFarewell env).andThen
        ((modify fun p => { p with announcing := false }).andThen
          ((callBus env .stop).andThen
            (modify fun p => { p with endpoints := [] })))) p
  else (p, [])

/-! ### Calls -/

/-- What starts a step of a participant. -/
inductive Call where
  | init
  | publish (topic payload : Bytes) (qos : QoSProfile) (flags : UInt8)
  | createSubscriber (pattern : Bytes) (callback : Nat) (qos : QoSProfile)
  | destroySubscriber (subId : UInt64)
  | createReplier (service : Bytes) (handler : Nat)
  | destroyReplier (service : Bytes)
  | sendRequest (service payload : Bytes) (qos : QoSProfile) (corrId : UInt32)
      (timeoutOverride : Int)
  | cancelPendingRequest (corrId : UInt32)
  /-- A transport has received something. -/
  | received (source : Endpoint) (data : Bytes)
  /-- The timers of the discovery agent. -/
  | announceTimer
  | timeoutTimer
  /-- The timer of the bus. -/
  | retryTimer
  | shutdown

def exec : Call → Action
  | .init => init env
  | .publish topic payload qos flags => callBus env (.publish topic payload qos flags)
  | .createSubscriber pattern callback qos =>
      (callBus env (.createSubscriber pattern callback qos)).andThen (announceLocalTopics env)
  | .destroySubscriber subId =>
      (callBus env (.removeLocalSubscription subId)).andThen (notifyTopicsChanged env)
  | .createReplier service handler =>
      (callBus env (.createReplier service handler)).andThen (announceLocalTopics env)
  | .destroyReplier service =>
      (callBus env (.removeServiceHandler service)).andThen (notifyTopicsChanged env)
  | .sendRequest service payload qos corrId timeoutOverride =>
      callBus env (.sendRequest service payload qos corrId timeoutOverride)
  | .cancelPendingRequest corrId => callBus env (.cancelPendingRequest corrId)
  | .received source data => recvCallback env source data
  | .announceTimer => sendAnnounce env
  | .timeoutTimer => checkPeerTimeouts env
  | .retryTimer => callBus env .tick
  | .shutdown => shutdown env

/-- Timers run between start and stop, and transports receive until they are shut down. -/
def Enabled (p : Participant) : Call → Prop
  | .init => p.created = false
  | .received _ _ => p.running = true
  | .announceTimer => p.announcing = true
  | .timeoutTimer => p.announcing = true
  | .retryTimer => p.bus.running = true
  | _ => p.created = true

instance (p : Participant) : (call : Call) → Decidable (p.Enabled call)
  | .init | .received _ _ | .announceTimer | .timeoutTimer | .retryTimer
  | .publish _ _ _ _ | .createSubscriber _ _ _ | .destroySubscriber _ | .createReplier _ _
  | .destroyReplier _ | .sendRequest _ _ _ _ _ | .cancelPendingRequest _ | .shutdown =>
      inferInstanceAs (Decidable (_ = _))

/-! ### The participant after a part of a step -/

section After

variable (p : Participant)

@[simp] theorem Action.andThen_fst (first second : Action) :
    (first.andThen second p).1 = (second (first p).1).1 := rfl

theorem Action.andThen_snd (first second : Action) :
    (first.andThen second p).2 = (first p).2 ++ (second (first p).1).2 := rfl

@[simp] theorem modify_fst (f : Participant → Participant) : (modify f p).1 = f p := rfl

@[simp] theorem callBus_fst (call : MessageBus.Call) :
    (callBus env call p).1 = { p with bus := (p.bus.exec env call).1 } := rfl

@[simp] theorem sendAnnounce_fst : (sendAnnounce env p).1 = p := rfl

@[simp] theorem sendFarewell_fst : (sendFarewell env p).1 = p := rfl

@[simp] theorem announceIfRunning_fst : (announceIfRunning env p).1 = p := by
  rw [announceIfRunning]
  split <;> rfl

@[simp] theorem announceTopics_fst (topics : List Bytes) :
    (announceTopics env topics p).1 = { p with localTopics := topics } := by
  rw [announceTopics, Action.andThen_fst, announceIfRunning_fst, modify_fst]

@[simp] theorem startDiscovery_fst : (startDiscovery env p).1 =
    { p with announcing := p.agent.enableLocalDiscovery || p.announcing } := by
  rw [startDiscovery]
  cases h : p.agent.enableLocalDiscovery <;> simp

end After

/-! ### What the bus sees of a step -/

/-- The bus executes the calls among the effects, one after the other. -/
inductive Runs (env : Env) : MessageBus → List NodeEffect → MessageBus → Prop
  | nil (bus : MessageBus) : Runs env bus [] bus
  | called {bus after : MessageBus} {call : MessageBus.Call} {rest : List NodeEffect} :
      Runs env (bus.exec env call).1 rest after →
        Runs env bus (.called call (bus.exec env call).2 :: rest) after
  | broadcast {bus after : MessageBus} {frame : Bytes} {rest : List NodeEffect} :
      Runs env bus rest after → Runs env bus (.broadcast frame :: rest) after
  | peerEvent {bus after : MessageBus} {id : UInt16} {name : Bytes} {online : Bool}
      {rest : List NodeEffect} :
      Runs env bus rest after → Runs env bus (.peerEvent id name online :: rest) after

variable {env}

theorem Runs.append {bus middle after : MessageBus} {effects more : List NodeEffect}
    (h : Runs env bus effects middle) (h' : Runs env middle more after) :
    Runs env bus (effects ++ more) after := by
  induction h with
  | nil bus => exact h'
  | called _ ih => exact .called (ih h')
  | broadcast _ ih => exact .broadcast (ih h')
  | peerEvent _ ih => exact .peerEvent (ih h')

theorem Runs.kept {bus after : MessageBus} {effects : List NodeEffect}
    (h : Runs env bus effects after) : MessageBus.Kept bus after := by
  induction h with
  | nil bus => exact ⟨rfl, rfl, Nat.le_refl _⟩
  | @called bus after call rest _ ih =>
      obtain ⟨hnode, hsize, hseq⟩ := MessageBus.exec_kept env bus call
      exact ⟨ih.nodeId.trans hnode, ih.sizeT.trans hsize, Nat.le_trans hseq ih.seqCounter⟩
  | broadcast _ ih => exact ih
  | peerEvent _ ih => exact ih

/-- A call among the effects was executed by the bus of the same node. -/
theorem Runs.called_origin {bus after : MessageBus} {effects : List NodeEffect}
    (h : Runs env bus effects after) {call : MessageBus.Call} {more : List Effect}
    (hmem : .called call more ∈ effects) :
    ∃ bus' : MessageBus, MessageBus.Kept bus bus' ∧ more = (bus'.exec env call).2 := by
  induction h with
  | nil bus => cases hmem
  | @called bus after other rest _ ih =>
      obtain heq | hmem := List.mem_cons.mp hmem
      · cases heq
        exact ⟨bus, ⟨rfl, rfl, Nat.le_refl _⟩, rfl⟩
      · obtain ⟨bus', hkept, hmore⟩ := ih hmem
        obtain ⟨hnode, hsize, hseq⟩ := MessageBus.exec_kept env bus other
        exact ⟨bus', ⟨hkept.nodeId.trans hnode, hkept.sizeT.trans hsize,
          Nat.le_trans hseq hkept.seqCounter⟩, hmore⟩
  | broadcast _ ih =>
      obtain heq | hmem := List.mem_cons.mp hmem
      · cases heq
      · exact ih hmem
  | peerEvent _ ih =>
      obtain heq | hmem := List.mem_cons.mp hmem
      · cases heq
      · exact ih hmem

/-- The calls of the bus that a call may lead to: a frame or a message comes from the call
itself. -/
def Causes (call : Call) : MessageBus.Call → Prop
  | .received source data => call = .received source data ∧
      DiscoveryAgent.isDiscovery (MessageType.ofByte (data.getD 3 0)) = false
  | .publish topic payload qos flags => call = .publish topic payload qos flags
  | _ => True

/-- What a node broadcasts. -/
def OwnFrame (agent : DiscoveryAgent) (frame : Bytes) : Prop :=
  (∃ topics eps, frame = agent.announceFrame topics eps) ∨ frame = agent.farewellFrame

/-- What is the same for every part of a step. -/
structure Sound (env : Env) (call : Call) (p : Participant)
    (result : Participant × List NodeEffect) : Prop where
  runs : Runs env p.bus result.2 result.1.bus
  causes : ∀ busCall effects, .called busCall effects ∈ result.2 → Causes call busCall
  broadcasts : ∀ frame, .broadcast frame ∈ result.2 → OwnFrame p.agent frame
  agent : result.1.agent = p.agent
  config : result.1.config = p.config

namespace Sound

variable {call : Call} {p : Participant} {first second : Action}

theorem andThen (h : Sound env call p (first p))
    (h' : Sound env call (first p).1 (second (first p).1)) :
    Sound env call p (first.andThen second p) where
  runs := h.runs.append h'.runs
  causes busCall effects hmem := by
    obtain hmem | hmem := List.mem_append.mp hmem
    · exact h.causes _ _ hmem
    · exact h'.causes _ _ hmem
  broadcasts frame hmem := by
    obtain hmem | hmem := List.mem_append.mp hmem
    · exact h.broadcasts _ hmem
    · exact h.agent ▸ h'.broadcasts _ hmem
  agent := h'.agent.trans h.agent
  config := h'.config.trans h.config

/-- A part that leaves the bus and the configuration alone. -/
theorem modify (f : Participant → Participant) (p : Participant)
    (hbus : (f p).bus = p.bus := by rfl) (hagent : (f p).agent = p.agent := by rfl)
    (hconfig : (f p).config = p.config := by rfl) : Sound env call p (modify f p) where
  runs := by
    rw [Participant.modify, hbus]
    exact .nil _
  causes busCall effects hmem := by cases hmem
  broadcasts frame hmem := by cases hmem
  agent := hagent
  config := hconfig

theorem nothing (p : Participant) : Sound env call p (p, []) := modify id p

theorem callBus (busCall : MessageBus.Call) (p : Participant)
    (h : Causes call busCall := by trivial) : Sound env call p (callBus env busCall p) where
  runs := .called (.nil _)
  causes other effects hmem := by
    cases List.mem_singleton.mp hmem
    exact h
  broadcasts frame hmem := by cases List.mem_singleton.mp hmem
  agent := rfl
  config := rfl

theorem broadcast {frame : Bytes} {p : Participant} (h : OwnFrame p.agent frame) :
    Sound env call p (broadcast env frame p) where
  runs := by
    rw [Participant.broadcast]
    split
    · exact .broadcast (.nil _)
    · exact .nil _
  causes busCall effects hmem := by
    rw [Participant.broadcast] at hmem
    split at hmem
    · cases List.mem_singleton.mp hmem
    · cases hmem
  broadcasts other hmem := by
    rw [Participant.broadcast] at hmem
    split at hmem
    · cases List.mem_singleton.mp hmem
      exact h
    · cases hmem
  agent := rfl
  config := rfl

theorem sendAnnounce (p : Participant) : Sound env call p (sendAnnounce env p) :=
  broadcast (.inl ⟨_, _, rfl⟩)

theorem sendFarewell (p : Participant) : Sound env call p (sendFarewell env p) :=
  broadcast (.inr rfl)

theorem announceIfRunning (p : Participant) : Sound env call p (announceIfRunning env p) := by
  rw [Participant.announceIfRunning]
  split
  · exact sendAnnounce p
  · exact nothing p

theorem announceTopics (topics : List Bytes) (p : Participant) :
    Sound env call p (announceTopics env topics p) :=
  (modify _ p).andThen (announceIfRunning _)

theorem notifyTopicsChanged (p : Participant) : Sound env call p (notifyTopicsChanged env p) := by
  rw [Participant.notifyTopicsChanged]
  split
  · exact announceTopics _ p
  · exact nothing p

theorem announceLocalTopics (p : Participant) : Sound env call p (announceLocalTopics env p) :=
  announceTopics _ p

theorem peerEvent (id : UInt16) (name : Bytes) (online : Bool) (p : Participant) :
    Sound env call p (peerEvent id name online p) where
  runs := .peerEvent (.nil _)
  causes busCall effects hmem := by cases List.mem_singleton.mp hmem
  broadcasts frame hmem := by cases List.mem_singleton.mp hmem
  agent := rfl
  config := rfl

theorem onPeer (cb : PeerCallback) (p : Participant) : Sound env call p (onPeer env cb p) := by
  cases cb with
  | discovered peer => exact (callBus _ p).andThen (peerEvent _ _ _ _)
  | updated peer => exact callBus _ p
  | will peer => exact callBus _ p
  | lost id name => exact (callBus _ p).andThen (peerEvent _ _ _ _)

theorem onPeers (callbacks : List PeerCallback) (p : Participant) :
    Sound env call p (onPeers env callbacks p) := by
  induction callbacks generalizing p with
  | nil => exact nothing p
  | cons cb rest ih => exact (onPeer cb p).andThen (ih _)

theorem callRegistry (registryCall : PeerRegistry.Call) (p : Participant) :
    Sound env call p (callRegistry env registryCall p) :=
  (modify _ p).andThen (onPeers _ _)

theorem checkPeerTimeouts (p : Participant) : Sound env call p (checkPeerTimeouts env p) :=
  callRegistry _ p

theorem recvCallback (source : Endpoint) (data : Bytes) (p : Participant) :
    Sound env (.received source data) p (recvCallback env source data p) := by
  rw [Participant.recvCallback]
  split
  · split
    · rw [onDiscoveryMessage]
      split
      · exact callRegistry _ p
      · exact nothing p
    · rename_i hother
      exact callBus _ p ⟨rfl, eq_false_of_ne_true hother⟩
  · exact nothing p

theorem startDiscovery (p : Participant) : Sound env call p (startDiscovery env p) := by
  rw [Participant.startDiscovery]
  split
  · exact (modify _ p).andThen (sendAnnounce _)
  · exact nothing p

theorem init (p : Participant) : Sound env call p (init env p) :=
  (callBus _ p).andThen <| (callBus _ _).andThen <| (modify _ _).andThen <|
    (startDiscovery _).andThen <| (callBus _ _).andThen (modify _ _)

theorem shutdown (p : Participant) : Sound env call p (shutdown env p) := by
  rw [Participant.shutdown]
  split
  · exact (modify _ p).andThen <| (sendFarewell _).andThen <| (modify _ _).andThen <|
      (callBus _ _).andThen (modify _ _)
  · exact nothing p

end Sound

theorem exec_sound (env : Env) (call : Call) (p : Participant) :
    Sound env call p (exec env call p) := by
  cases call with
  | init => exact .init p
  | publish topic payload qos flags => exact .callBus _ p rfl
  | createSubscriber pattern callback qos =>
      exact (Sound.callBus _ p).andThen (.announceLocalTopics _)
  | destroySubscriber subId => exact (Sound.callBus _ p).andThen (.notifyTopicsChanged _)
  | createReplier service handler => exact (Sound.callBus _ p).andThen (.announceLocalTopics _)
  | destroyReplier service => exact (Sound.callBus _ p).andThen (.notifyTopicsChanged _)
  | received source data => exact .recvCallback source data p
  | announceTimer => exact .sendAnnounce p
  | timeoutTimer => exact .checkPeerTimeouts p
  | shutdown => exact .shutdown p
  | _ => exact .callBus _ p

end Participant

end EmbedMq
