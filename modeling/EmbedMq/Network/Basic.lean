import EmbedMq.Bus.Frame
import EmbedMq.Foundation.Transition

/-!
# Nodes on a network

Any number of buses exchange frames. Every call of an entry point of a bus is one
step, and the log keeps the calls with their surroundings and effects, newest
first. The network is the log: a frame that a node has handed to its transport may
be received by the owner of the destination, at any later time, any number of
times or never. So frames can be lost, duplicated, delayed and reordered, but not
changed. The source endpoint that the receiver is given belongs to the sender, or
to nobody: shared memory carries no source address.
-/

namespace EmbedMq

open MessageBus (Call)

/-- The nodes, and who listens at which endpoint. -/
structure Deployment (ι : Type) where
  owner : Endpoint → Option ι
  nodeId : ι → UInt16
  localHostName : ι → Bytes
  sizeT : ι → SizeT

structure LogEntry (ι : Type) where
  node : ι
  env : Env
  call : Call
  effects : List Effect

structure World (ι : Type) where
  nodes : ι → MessageBus
  log : List (LogEntry ι)

namespace World

variable {ι : Type}

/-- A node has handed these bytes to its transport for this destination. -/
def Sent (w : World ι) (node : ι) (dest : Endpoint) (data : Bytes) : Prop :=
  ∃ e ∈ w.log, e.node = node ∧ ∃ effect ∈ e.effects, effect.packet = some (dest, data)

instance [DecidableEq ι] (w : World ι) (node : ι) (dest : Endpoint) (data : Bytes) :
    Decidable (w.Sent node dest data) :=
  inferInstanceAs (Decidable (∃ e ∈ w.log, _))

/-- A step: one node executes one call. -/
structure Label (ι : Type) where
  node : ι
  env : Env
  call : Call

variable (D : Deployment ι)

/-- Whether a frame may arrive at a node with this source endpoint. -/
def Arrives (w : World ι) (node : ι) (source : Endpoint) (data : Bytes) : Prop :=
  ∃ sender dest, w.Sent sender dest data ∧ D.owner dest = some node ∧
    (D.owner source = some sender ∨ D.owner source = none)

def initialBus (n : ι) : MessageBus :=
  { nodeId := D.nodeId n, localHostName := D.localHostName n, sizeT := D.sizeT n }

variable [DecidableEq ι]

def step (w : World ι) (l : Label ι) : World ι where
  nodes := Function.update w.nodes l.node ((w.nodes l.node).exec l.env l.call).1
  log := ⟨l.node, l.env, l.call, ((w.nodes l.node).exec l.env l.call).2⟩ :: w.log

/-- All runs of a deployment. -/
def system : TransitionSystem (World ι) (Label ι) where
  init w := w.nodes = initialBus D ∧ w.log = []
  enabled w l := ∀ source data, l.call = .received source data → w.Arrives D l.node source data
  next := step

variable {D} {w : World ι}

@[simp] theorem step_log (l : Label ι) : (w.step l).log =
    ⟨l.node, l.env, l.call, ((w.nodes l.node).exec l.env l.call).2⟩ :: w.log := rfl

@[simp] theorem step_node_self (l : Label ι) :
    (w.step l).nodes l.node = ((w.nodes l.node).exec l.env l.call).1 :=
  Function.update_self _ _ _

theorem step_node_ne (l : Label ι) {n : ι} (h : n ≠ l.node) : (w.step l).nodes n = w.nodes n :=
  Function.update_of_ne h _ _

/-- What the reached state says about a node that the step may or may not concern. -/
theorem step_node_cases (l : Label ι) (n : ι) :
    (n = l.node ∧ (w.step l).nodes n = ((w.nodes l.node).exec l.env l.call).1) ∨
      (n ≠ l.node ∧ (w.step l).nodes n = w.nodes n) := by
  by_cases h : n = l.node
  · subst h
    exact Or.inl ⟨rfl, step_node_self l⟩
  · exact Or.inr ⟨h, step_node_ne l h⟩

theorem not_mem_log_of_init (hinit : (system D).init w) {e : LogEntry ι} : e ∉ w.log := by
  rw [hinit.2]
  exact List.not_mem_nil

theorem log_ne_of_init (hinit : (system D).init w) {post pre : List (LogEntry ι)}
    {e : LogEntry ι} : w.log ≠ post ++ e :: pre := by
  rw [hinit.2]
  simp

/-- An entry of the log is the record of a step from an earlier reachable state. -/
theorem entry_origin {cond : World ι → Label ι → Prop}
    (h : ((system D).restrict cond).Reachable w) {post pre : List (LogEntry ι)} {e : LogEntry ι}
    (hlog : w.log = post ++ e :: pre) :
    ∃ before : World ι, ((system D).restrict cond).Reachable before ∧ before.log = pre ∧
      (system D).enabled before ⟨e.node, e.env, e.call⟩ ∧ cond before ⟨e.node, e.env, e.call⟩ ∧
      e.effects = ((before.nodes e.node).exec e.env e.call).2 := by
  induction h generalizing post with
  | init hinit =>
      exact absurd hlog (log_ne_of_init hinit)
  | @step s l hreach henabled ih =>
      have hcons : (⟨l.node, l.env, l.call, ((s.nodes l.node).exec l.env l.call).2⟩ ::
          s.log : List (LogEntry ι)) = post ++ e :: pre := hlog
      cases post with
      | nil =>
          obtain ⟨rfl, rfl⟩ := List.cons.inj hcons
          exact ⟨s, hreach, rfl, henabled.1, henabled.2, rfl⟩
      | cons first rest => exact ih (List.cons.inj hcons).2

theorem entry_before (h : (system D).Reachable w) {post pre : List (LogEntry ι)} {e : LogEntry ι}
    (hlog : w.log = post ++ e :: pre) :
    ∃ before : World ι, (system D).Reachable before ∧ before.log = pre ∧
      (system D).enabled before ⟨e.node, e.env, e.call⟩ ∧
      e.effects = ((before.nodes e.node).exec e.env e.call).2 := by
  obtain ⟨before, hbefore, hlog', henabled, _, heffects⟩ :=
    entry_origin (TransitionSystem.reachable_restrict_true.mpr h) hlog
  exact ⟨before, TransitionSystem.reachable_restrict_true.mp hbefore, hlog', henabled, heffects⟩

/-- Identity and platform of a node do not change. -/
theorem reachable_node (h : (system D).Reachable w) (n : ι) :
    (w.nodes n).nodeId = D.nodeId n ∧ (w.nodes n).sizeT = D.sizeT n := by
  induction h with
  | init hinit =>
      rw [hinit.1]
      exact ⟨rfl, rfl⟩
  | @step s l _ _ ih =>
      obtain ⟨rfl, hnode⟩ | ⟨_, hnode⟩ := step_node_cases (w := s) l n
      · have hkept := MessageBus.exec_kept l.env (s.nodes l.node) l.call
        change ((s.step l).nodes l.node).nodeId = _ ∧ ((s.step l).nodes l.node).sizeT = _
        rw [hnode, hkept.nodeId, hkept.sizeT]
        exact ih
      · change ((s.step l).nodes n).nodeId = _ ∧ ((s.step l).nodes n).sizeT = _
        rw [hnode]
        exact ih

/-- Fewer than `2 ^ 32` sequence numbers have been used by every node. -/
def NumbersLeft (w : World ι) : Prop := ∀ n, (w.nodes n).seqCounter ≤ 2 ^ 32

end World

/-! ### Two nodes -/

inductive Party where
  | sender
  | receiver
  deriving DecidableEq

namespace Party

/-- The address of a party, which is all that ownership of an endpoint depends on. -/
def address : Party → Bytes
  | sender => [1]
  | receiver => [2]

/-- The datagram endpoint of a party. -/
def endpoint (p : Party) : Endpoint :=
  { address := address p, port := 7400, transportType := MessageBus.udp }

/-- The stream endpoint of a party. -/
def streamEndpoint (p : Party) : Endpoint :=
  { address := address p, port := 7401, transportType := MessageBus.tcp }

def nodeId : Party → UInt16
  | sender => 1
  | receiver => 2

/-- A sender and a receiver at an address each. -/
def deployment : Deployment Party where
  owner ep := if ep.address = address sender then some sender
    else if ep.address = address receiver then some receiver else none
  nodeId := nodeId
  localHostName _ := []
  sizeT _ := .bits64

theorem nodeId_injective : Function.Injective deployment.nodeId := by
  rintro (_ | _) (_ | _) h
  · rfl
  · exact absurd h (by decide)
  · exact absurd h (by decide)
  · rfl

/-- A party with one endpoint, as its peer discovers it. -/
def info (p : Party) (ep : Endpoint) (topics : List Bytes) : PeerInfo where
  id := nodeId p
  name := []
  hostName := []
  endpoints := [ep]
  publishedTopics := []
  subscribedTopics := topics

/-- The receiver, as the sender discovers it. -/
def receiverInfo (topics : List Bytes) : PeerInfo := info receiver (endpoint receiver) topics

/-- The frame of the sender's first message to its one peer. It has number 2. -/
def firstFrame (qos : QoSProfile) : Bytes :=
  MessageCodec.encode
    { type := .publish, sourceId := nodeId sender, destId := 0xFFFF, topic := [0x74],
      payload := [42], qos, sequenceId := 2 } 0

/-- An acknowledgement with the number of that frame. -/
def controlArgs (p : Party) (type : MessageType) (qos : QoSProfile := {}) :
    MessageCodec.EncodeArgs :=
  { type, sourceId := nodeId p, destId := 0, topic := [], payload := [], qos, sequenceId := 2 }

def controlFrame (p : Party) (type : MessageType) (qos : QoSProfile := {}) : Bytes :=
  MessageCodec.encode (controlArgs p type qos) 0

/-- A call at a given time, with all transports active. -/
def call (node : Party) (now : Int) (call : MessageBus.Call) : World.Label Party where
  node := node
  call := call
  env :=
    { now, sent := fun _ => now, stamp := fun _ => 0, active := fun _ => true,
      invoke := fun _ _ => [] }

@[simp]
theorem call_node (node : Party) (now : Int) (call : MessageBus.Call) :
    (node.call now call).node = node := rfl

@[simp]
theorem call_call (node : Party) (now : Int) (call : MessageBus.Call) :
    (node.call now call).call = call := rfl

def start : World Party := ⟨World.initialBus deployment, []⟩

theorem enabled_of_not_received {w : World Party} {l : World.Label Party}
    (h : ∀ source data, l.call ≠ .received source data) :
    (World.system deployment).enabled w l :=
  fun source data hcall => absurd hcall (h source data)

/-- A frame for the receiver arrives there. -/
theorem enabled_of_sent {w : World Party} {now : Int} {data : Bytes}
    (h : w.Sent sender (endpoint receiver) data) :
    (World.system deployment).enabled w
      (call receiver now (.received (endpoint sender) data)) := by
  intro source data' hcall
  cases hcall
  exact ⟨sender, endpoint receiver, h, rfl, Or.inl rfl⟩

/-- An answer for the sender arrives there. -/
theorem enabled_of_answered {w : World Party} {now : Int} {data : Bytes}
    (h : w.Sent receiver (endpoint sender) data) :
    (World.system deployment).enabled w
      (call sender now (.received (endpoint receiver) data)) := by
  intro source data' hcall
  cases hcall
  exact ⟨receiver, endpoint sender, h, rfl, Or.inl rfl⟩

end Party

end EmbedMq
