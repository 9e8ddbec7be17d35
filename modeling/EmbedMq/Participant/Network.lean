import EmbedMq.Network.Provenance
import EmbedMq.Participant.Basic

/-!
# Participants on a network

Any number of participants exchange datagrams. A frame that a bus hands to its transport may
reach the owner of the destination, and a frame that is broadcast may reach everybody, its sender
included; at any later time, any number of times or never. A receiver gets the frame, or as
much of it as its buffer holds.

Seen from the buses, discovery only calls their entry points, and the frames of discovery never
reach them. So the buses of a network of participants behave as the nodes of `World`, and what is
proved there holds here.
-/

namespace EmbedMq

open MessageBus (Answer)
open MessageCodec (decode encode Encodable)

/-- The participants before they start, and who listens at which endpoint. -/
structure Fleet (ι : Type) where
  owner : Endpoint → Option ι
  agent : ι → DiscoveryAgent
  config : ι → ParticipantConfig
  endpoints : ι → List Endpoint

namespace Fleet

variable {ι : Type} (F : Fleet ι)

/-- The buses of the participants. Bus and discovery agent ask the platform for the same host
name. -/
def deployment : Deployment ι where
  owner := F.owner
  nodeId n := (F.agent n).nodeId
  localHostName n := (F.agent n).hostName
  sizeT n := (F.agent n).sizeT

def participant (n : ι) : Participant where
  agent := F.agent n
  config := F.config n
  endpoints := F.endpoints n
  bus := World.initialBus F.deployment n

end Fleet

structure NetworkEntry (ι : Type) where
  node : ι
  env : Env
  call : Participant.Call
  effects : List NodeEffect

structure Network (ι : Type) where
  nodes : ι → Participant
  log : List (NetworkEntry ι)

namespace Network

variable {ι : Type}

/-- The bus of a node has handed these bytes to its transport for this destination. -/
def Sent (s : Network ι) (node : ι) (dest : Endpoint) (frame : Bytes) : Prop :=
  ∃ e ∈ s.log, e.node = node ∧ ∃ call effects, .called call effects ∈ e.effects ∧
    ∃ effect ∈ effects, effect.packet = some (dest, frame)

def Broadcast (s : Network ι) (node : ι) (frame : Bytes) : Prop :=
  ∃ e ∈ s.log, e.node = node ∧ .broadcast frame ∈ e.effects

/-- What a receiver may get of a frame. -/
def Part (frame data : Bytes) : Prop :=
  data = frame ∨ ∃ size : UInt32, data = frame.take size.toNat

structure Label (ι : Type) where
  node : ι
  env : Env
  call : Participant.Call

variable (F : Fleet ι)

/-- Whether a datagram may arrive at a node with this source endpoint. -/
def Arrives (s : Network ι) (node : ι) (source : Endpoint) (data : Bytes) : Prop :=
  ∃ sender frame, ((∃ dest, s.Sent sender dest frame ∧ F.owner dest = some node) ∨
      s.Broadcast sender frame) ∧
    Part frame data ∧ (F.owner source = some sender ∨ F.owner source = none)

variable [DecidableEq ι]

def step (s : Network ι) (l : Label ι) : Network ι where
  nodes := Function.update s.nodes l.node (Participant.exec l.env l.call (s.nodes l.node)).1
  log := ⟨l.node, l.env, l.call, (Participant.exec l.env l.call (s.nodes l.node)).2⟩ :: s.log

/-- All runs of the participants. -/
def system : TransitionSystem (Network ι) (Label ι) where
  init s := s.nodes = F.participant ∧ s.log = []
  enabled s l := (s.nodes l.node).Enabled l.call ∧
    ∀ source data, l.call = .received source data → s.Arrives F l.node source data
  next := step

/-- The runs whose BestEffort messages fit the header. -/
def fitting : TransitionSystem (Network ι) (Label ι) :=
  (system F).restrict fun _ l => ∀ topic payload qos flags,
    l.call = .publish topic payload qos flags → World.Fits (.publish topic payload qos flags)

variable {F} {s : Network ι}

@[simp] theorem step_log (l : Label ι) : (s.step l).log =
    ⟨l.node, l.env, l.call, (Participant.exec l.env l.call (s.nodes l.node)).2⟩ :: s.log := rfl

@[simp] theorem step_node_self (l : Label ι) :
    (s.step l).nodes l.node = (Participant.exec l.env l.call (s.nodes l.node)).1 :=
  Function.update_self _ _ _

theorem step_node_ne (l : Label ι) {n : ι} (h : n ≠ l.node) : (s.step l).nodes n = s.nodes n :=
  Function.update_of_ne h _ _

/-- What the reached state says about a node that the step may or may not concern. -/
theorem step_node_cases (l : Label ι) (n : ι) :
    (n = l.node ∧ (s.step l).nodes n = (Participant.exec l.env l.call (s.nodes l.node)).1) ∨
      (n ≠ l.node ∧ (s.step l).nodes n = s.nodes n) := by
  by_cases h : n = l.node
  · subst h
    exact .inl ⟨rfl, step_node_self l⟩
  · exact .inr ⟨h, step_node_ne l h⟩

/-- Agent and configuration of a node do not change. -/
theorem reachable_node (h : (system F).Reachable s) (n : ι) :
    (s.nodes n).agent = F.agent n ∧ (s.nodes n).config = F.config n := by
  induction h with
  | init hinit =>
      rw [hinit.1]
      exact ⟨rfl, rfl⟩
  | @step s l _ _ ih =>
      change ((s.step l).nodes n).agent = _ ∧ ((s.step l).nodes n).config = _
      obtain ⟨rfl, hnode⟩ | ⟨-, hnode⟩ := step_node_cases (s := s) l n
      · have hsound := Participant.exec_sound l.env l.call (s.nodes l.node)
        rw [hnode, hsound.agent, hsound.config]
        exact ih
      · rw [hnode]
        exact ih

/-- An entry of the log is the record of a step from an earlier reachable state. -/
theorem entry_origin {cond : Network ι → Label ι → Prop}
    (h : ((system F).restrict cond).Reachable s) {post pre : List (NetworkEntry ι)}
    {e : NetworkEntry ι} (hlog : s.log = post ++ e :: pre) :
    ∃ before : Network ι, ((system F).restrict cond).Reachable before ∧ before.log = pre ∧
      ((system F).restrict cond).enabled before ⟨e.node, e.env, e.call⟩ ∧
      e.effects = (Participant.exec e.env e.call (before.nodes e.node)).2 := by
  induction h generalizing post with
  | init hinit =>
      rw [hinit.2] at hlog
      exact absurd hlog (by simp)
  | @step s l hreach henabled ih =>
      rw [show ((system F).restrict cond).next s l = s.step l from rfl, step_log] at hlog
      cases post with
      | nil =>
          obtain ⟨rfl, rfl⟩ := List.cons.inj hlog
          exact ⟨s, hreach, rfl, henabled, rfl⟩
      | cons first rest => exact ih (List.cons.inj hlog).2

/-- Identity and platform of a bus do not change. -/
theorem reachable_bus (h : (system F).Reachable s) (n : ι) :
    (s.nodes n).bus.nodeId = F.deployment.nodeId n ∧
      (s.nodes n).bus.sizeT = F.deployment.sizeT n := by
  induction h with
  | init hinit =>
      rw [hinit.1]
      exact ⟨rfl, rfl⟩
  | @step s l _ _ ih =>
      change ((s.step l).nodes n).bus.nodeId = _ ∧ ((s.step l).nodes n).bus.sizeT = _
      obtain ⟨rfl, hnode⟩ | ⟨-, hnode⟩ := step_node_cases (s := s) l n
      · have hkept := (Participant.exec_sound l.env l.call (s.nodes l.node)).runs.kept
        rw [hnode, hkept.nodeId, hkept.sizeT]
        exact ih
      · rw [hnode]
        exact ih

/-- A recorded call of a bus was executed by a bus of the node. -/
theorem called_origin (h : (system F).Reachable s) {e : NetworkEntry ι} (hmem : e ∈ s.log)
    {call : MessageBus.Call} {effects : List Effect} (hcalled : .called call effects ∈ e.effects) :
    ∃ bus : MessageBus, bus.nodeId = F.deployment.nodeId e.node ∧
      bus.sizeT = F.deployment.sizeT e.node ∧ effects = (bus.exec e.env call).2 := by
  obtain ⟨post, pre, hlog⟩ := List.append_of_mem hmem
  obtain ⟨before, hbefore, -, -, heffects⟩ :=
    entry_origin (TransitionSystem.reachable_restrict_true.mpr h) hlog
  obtain ⟨hnode, hsize⟩ := reachable_bus hbefore.of_restrict e.node
  rw [heffects] at hcalled
  obtain ⟨bus, hkept, hexec⟩ :=
    (Participant.exec_sound e.env e.call (before.nodes e.node)).runs.called_origin hcalled
  exact ⟨bus, hkept.nodeId.trans hnode, hkept.sizeT.trans hsize, hexec⟩

/-! ### The buses -/

/-- A frame that the bus decodes, or a call that needs no frame. -/
def Heard (sz : SizeT) : MessageBus.Call → Bool
  | .received _ data => (decode sz data).valid
  | _ => true

variable (F) in
/-- The record of a call of the bus, unless it is a datagram that the bus drops. -/
def busEntry (n : ι) (env : Env) : NodeEffect → Option (LogEntry ι)
  | .called call effects =>
      if Heard (F.deployment.sizeT n) call then some ⟨n, env, call, effects⟩ else none
  | _ => none

variable (F) in
def busEntries (e : NetworkEntry ι) : List (LogEntry ι) :=
  (e.effects.filterMap (busEntry F e.node e.env)).reverse

variable (F) in
/-- The buses of the participants, and what they have done. -/
def world (s : Network ι) : World ι where
  nodes n := (s.nodes n).bus
  log := s.log.flatMap (busEntries F)

/-- What a bus may be called with next. -/
structure Admissible (D : Deployment ι) (w : World ι) (n : ι) (call : MessageBus.Call) : Prop where
  fits : World.Fits call
  arrives : ∀ source data, call = .received source data → (decode (D.sizeT n) data).valid = true →
    w.Arrives D n source data

omit [DecidableEq ι] in
theorem Admissible.mono {D : Deployment ι} {w w' : World ι} {n : ι} {call : MessageBus.Call}
    (h : Admissible D w n call) (hlog : ∀ e ∈ w.log, e ∈ w'.log) : Admissible D w' n call := by
  refine ⟨h.fits, fun source data hcall hvalid => ?_⟩
  obtain ⟨sender, dest, ⟨e, hmem, hrest⟩, hto⟩ := h.arrives source data hcall hvalid
  exact ⟨sender, dest, ⟨e, hlog e hmem, hrest⟩, hto⟩

/-- A datagram that a bus drops changes nothing. -/
theorem exec_of_not_heard (env : Env) {bus : MessageBus} {call : MessageBus.Call}
    (h : Heard bus.sizeT call = false) : bus.exec env call = (bus, []) := by
  cases call with
  | received source data => exact MessageBus.onReceived_invalid env h
  | _ => cases h

/-- The calls that a step makes are a run of the buses. -/
theorem leads_runs {env : Env} {bus after : MessageBus} {effects : List NodeEffect}
    (hruns : Participant.Runs env bus effects after) {n : ι} {w : World ι}
    (hbus : w.nodes n = bus) (hsize : bus.sizeT = F.deployment.sizeT n)
    (hcalls : ∀ call more, .called call more ∈ effects → Admissible F.deployment w n call) :
    (World.fitting F.deployment).Leads w
      ⟨Function.update w.nodes n after,
        (effects.filterMap (busEntry F n env)).reverse ++ w.log⟩ := by
  induction hruns generalizing w with
  | nil bus =>
      rw [← hbus, Function.update_eq_self]
      exact .refl w
  | broadcast _ ih => exact ih hbus hsize fun call more hmem => hcalls call more (.tail _ hmem)
  | peerEvent _ ih => exact ih hbus hsize fun call more hmem => hcalls call more (.tail _ hmem)
  | @called bus after call rest _ ih =>
      have hrest : ∀ other more, .called other more ∈ rest →
          Admissible F.deployment w n other :=
            fun other more hmem => hcalls other more (.tail _ hmem)
      have hkept := MessageBus.exec_kept env bus call
      cases hheard : Heard (F.deployment.sizeT n) call with
      | false =>
          have hsame := exec_of_not_heard env (hsize.symm ▸ hheard)
          rw [hsame] at ih
          rw [List.filterMap_cons_none (by simp [busEntry, hheard])]
          exact ih hbus hsize hrest
      | true =>
          let l : World.Label ι := ⟨n, env, call⟩
          have hnode : (w.step l).nodes n = (bus.exec env call).1 := by
            rw [← hbus]
            exact World.step_node_self l
          have henabled : (World.fitting F.deployment).enabled w l := by
            refine ⟨fun source data hcall => ?_, (hcalls call _ (.head _)).fits⟩
            have hcall : call = .received source data := hcall
            refine (hcalls call _ (.head _)).arrives source data hcall ?_
            rw [hcall] at hheard
            exact hheard
          have hmono : ∀ other more, .called other more ∈ rest →
              Admissible F.deployment (w.step l) n other := fun other more hmem =>
            (hrest other more hmem).mono fun e he => .tail _ he
          refine .head henabled ?_
          have hleads := ih hnode (hkept.sizeT.trans hsize) hmono
          have hentry : busEntry F n env (.called call (bus.exec env call).2) =
              some ⟨n, env, call, (bus.exec env call).2⟩ := if_pos hheard
          rw [List.filterMap_cons_some hentry, List.reverse_cons, List.append_assoc]
          have hupdate :
              Function.update (w.step l).nodes n after = Function.update w.nodes n after :=
            Function.update_idem ..
          rw [hupdate, World.step_log, hbus] at hleads
          exact hleads

/-! ### What arrives -/

/-- Only a whole frame decodes. -/
theorem part_valid {a : MessageCodec.EncodeArgs} {stamp : UInt64} {data : Bytes} {sz : SizeT}
    (hpart : Part (encode a stamp) data) (hvalid : (decode sz data).valid = true) :
    data = encode a stamp ∧ Encodable a := by
  have hwhole : data = encode a stamp := by
    obtain rfl | ⟨size, rfl⟩ := hpart
    · rfl
    · exact MessageCodec.take_encode_of_valid size.toNat_lt hvalid
  rw [hwhole] at hvalid
  exact ⟨hwhole, MessageCodec.encodable_of_valid hvalid⟩

/-- The type of a frame is in its fourth byte. -/
theorem encode_type {a : MessageCodec.EncodeArgs} (h : Encodable a) (stamp : UInt64) :
    MessageType.ofByte ((encode a stamp).getD 3 0) = a.type := by
  rw [MessageCodec.encode_eq, if_pos h]
  exact MessageType.ofByte_toByte a.type

/-- A frame of a discovery agent never reaches a bus. -/
theorem ownFrame_type {agent : DiscoveryAgent} {frame data : Bytes} {sz : SizeT}
    (h : Participant.OwnFrame agent frame) (hpart : Part frame data)
    (hvalid : (decode sz data).valid = true) :
    DiscoveryAgent.isDiscovery (MessageType.ofByte (data.getD 3 0)) = true := by
  have hframe : ∃ type payload, frame = encode (agent.frameArgs type payload) 0 ∧
      DiscoveryAgent.isDiscovery type = true := by
    obtain ⟨topics, eps, hframe⟩ | hframe := h
    · exact ⟨_, _, hframe, rfl⟩
    · exact ⟨_, _, hframe, rfl⟩
  obtain ⟨type, payload, rfl, htype⟩ := hframe
  obtain ⟨rfl, henc⟩ := part_valid hpart hvalid
  rw [encode_type henc]
  exact htype

theorem broadcast_ownFrame (h : (system F).Reachable s) {n : ι} {frame : Bytes}
    (hsent : s.Broadcast n frame) : Participant.OwnFrame (F.agent n) frame := by
  obtain ⟨e, hmem, rfl, hframe⟩ := hsent
  obtain ⟨post, pre, hlog⟩ := List.append_of_mem hmem
  obtain ⟨before, hbefore, -, -, heffects⟩ :=
    entry_origin (TransitionSystem.reachable_restrict_true.mpr h) hlog
  rw [heffects] at hframe
  rw [← (reachable_node hbefore.of_restrict e.node).1]
  exact (Participant.exec_sound e.env e.call (before.nodes e.node)).broadcasts frame hframe

/-- What a bus has sent is sent by the bus alone. -/
theorem sent_world (h : (system F).Reachable s) {n : ι} {dest : Endpoint} {frame : Bytes}
    (hsent : s.Sent n dest frame) : (world F s).Sent n dest frame := by
  obtain ⟨e, hmem, rfl, call, effects, hcalled, hpacket⟩ := hsent
  have hheard : Heard (F.deployment.sizeT e.node) call = true := by
    by_contra hdropped
    obtain ⟨bus, -, hsize, heffects⟩ := called_origin h hmem hcalled
    rw [exec_of_not_heard e.env (by rw [hsize]; exact eq_false_of_ne_true hdropped)] at heffects
    obtain ⟨effect, hin, -⟩ := hpacket
    rw [heffects] at hin
    cases hin
  refine ⟨⟨e.node, e.env, call, effects⟩, List.mem_flatMap.mpr ⟨e, hmem, ?_⟩, rfl, hpacket⟩
  exact List.mem_reverse.mpr (List.mem_filterMap.mpr ⟨_, hcalled, if_pos hheard⟩)

end Network

/-- Everything a bus sends is encoded, and is not for the discovery agents. -/
theorem World.sent_encode {ι : Type} [DecidableEq ι] {D : Deployment ι} {w : World ι}
    (hw : (fitting D).Reachable w) {n : ι} {dest : Endpoint} {data : Bytes}
    (h : w.Sent n dest data) :
    ∃ a stamp, data = encode a stamp ∧ DiscoveryAgent.isDiscovery a.type = false := by
  obtain ⟨number, e, hmem, -, slices, hframe, rfl⟩ | ⟨e, -, -, input, -, -, hanswer⟩ |
    ⟨q, ⟨b, stamp, -, rfl⟩, -⟩ := sent_cases hw.of_restrict h
  · obtain ⟨a, stamp, hdata, hargs⟩ := frame_content hw hmem hframe
    refine ⟨a, stamp, hdata, ?_⟩
    obtain htype | htype | htype := hargs.type
    all_goals
      rw [htype]
      rfl
  · cases hanswer with
    | ack _ stamp _ => exact ⟨_, stamp, rfl, rfl⟩
    | pubrec _ stamp _ _ => exact ⟨_, stamp, rfl, rfl⟩
    | pubrel _ stamp _ => exact ⟨_, stamp, rfl, rfl⟩
    | pubcomp _ stamp _ => exact ⟨_, stamp, rfl, rfl⟩
  · exact ⟨_, stamp, rfl, rfl⟩

namespace Network

variable {ι : Type} [DecidableEq ι] {F : Fleet ι} {s : Network ι}

/-- A frame that a bus is given and decodes has been sent by a bus, as a whole. -/
theorem arrives_world (h : (fitting F).Reachable s)
    (hw : (World.fitting F.deployment).Reachable (world F s)) {n : ι} {source : Endpoint}
    {data : Bytes} (harrives : s.Arrives F n source data) {sz : SizeT}
    (hvalid : (decode sz data).valid = true)
    (hbus : DiscoveryAgent.isDiscovery (MessageType.ofByte (data.getD 3 0)) = false) :
    (world F s).Arrives F.deployment n source data := by
  obtain ⟨sender, frame, ⟨dest, hsent, howner⟩ | hbroadcast, hpart, hsource⟩ := harrives
  · have hsent := sent_world h.of_restrict hsent
    obtain ⟨a, stamp, rfl, -⟩ := World.sent_encode hw hsent
    obtain ⟨rfl, -⟩ := part_valid hpart hvalid
    exact ⟨sender, dest, hsent, howner, hsource⟩
  · have hown := broadcast_ownFrame h.of_restrict hbroadcast
    rw [ownFrame_type hown hpart hvalid] at hbus
    cases hbus

/-- The buses of a network of participants are a network of buses: whatever the discovery
agents do, each step of a participant is a run of its bus. -/
theorem refines_world : (fitting F).Refines (World.fitting F.deployment) (world F) where
  init {s} hinit := by
    obtain ⟨hnodes, hlog⟩ : s.nodes = F.participant ∧ s.log = [] := hinit
    refine ⟨?_, ?_⟩
    · funext n
      change (s.nodes n).bus = _
      rw [hnodes]
      rfl
    · change s.log.flatMap _ = []
      rw [hlog]
      rfl
  step {s l} h hw henabled := by
    obtain ⟨⟨-, harrives⟩, hfits⟩ := henabled
    have hsound := Participant.exec_sound l.env l.call (s.nodes l.node)
    obtain ⟨-, hsize⟩ := reachable_bus h.of_restrict l.node
    have hcalls : ∀ call more,
        .called call more ∈ (Participant.exec l.env l.call (s.nodes l.node)).2 →
          Admissible F.deployment (world F s) l.node call := by
      intro call more hmem
      have hcause := hsound.causes call more hmem
      refine ⟨?_, fun source data hcall hvalid => ?_⟩
      · intro topic payload qos flags hcall
        rw [hcall] at hcause
        exact hfits topic payload qos flags hcause topic payload qos flags rfl
      · rw [hcall] at hcause
        exact arrives_world h hw (harrives source data hcause.1) hvalid hcause.2
    have hleads := leads_runs hsound.runs (w := world F s) rfl hsize hcalls
    have hnodes : (fun n => ((s.step l).nodes n).bus) =
        Function.update (fun n => (s.nodes n).bus) l.node
          (Participant.exec l.env l.call (s.nodes l.node)).1.bus := by
      funext n
      obtain ⟨rfl, hnode⟩ | ⟨hne, hnode⟩ := step_node_cases (s := s) l n
      · rw [hnode, Function.update_self]
      · rw [hnode, Function.update_of_ne hne]
    change (World.fitting F.deployment).Leads (world F s)
      ⟨fun n => ((s.step l).nodes n).bus, (s.step l).log.flatMap (busEntries F)⟩
    rw [hnodes]
    exact hleads

end Network

end EmbedMq
