import EmbedMq.Bus.Publishing
import EmbedMq.Discovery.Isolation
import EmbedMq.Participant.Network
import EmbedMq.Participant.Steps

/-!
# What participants know of each other

A participant learns of another one by an announcement that has arrived whole. So whatever its
registry and its routing table say about a peer is what a node of the same domain had announced
before, and a message is sent to nobody who has not announced a matching subscription.
-/

namespace EmbedMq

open MessageCodec (decode encode Encodable)

namespace DiscoveryAgent

/-- The record of a node whose announcement came from an endpoint. -/
def heardFrom (sender : DiscoveryAgent) (topics : List Bytes) (eps : List Endpoint)
    (source : Endpoint) : PeerInfo :=
  { sender.record topics eps with endpoints := resolve source (sender.record topics eps).endpoints }

variable {agent sender : DiscoveryAgent} {source : Endpoint} {call : PeerRegistry.Call}

@[simp] theorem heardFrom_id (topics : List Bytes) (eps : List Endpoint) :
    (sender.heardFrom topics eps source).id = sender.nodeId :=
  record_id topics eps

@[simp] theorem heardFrom_subscribedTopics (topics : List Bytes) (eps : List Endpoint) :
    (sender.heardFrom topics eps source).subscribedTopics =
      (topics.take 255).map (List.take 0xFFFF) :=
  record_subscribedTopics topics eps

/-- A frame of another kind leads to no call. -/
theorem onDiscoveryMessage_other {a : MessageCodec.EncodeArgs} {stamp : UInt64}
    (htype : isDiscovery a.type = false) :
    agent.onDiscoveryMessage source (encode a stamp) = none := by
  rw [onDiscoveryMessage]
  split
  · rfl
  · rename_i hvalid
    have henc : Encodable a := MessageCodec.encodable_of_valid (show _ = true by simpa using hvalid)
    rw [MessageCodec.decode_encode henc, MessageCodec.encodedHeader_type]
    split
    · rfl
    · cases h : a.type <;> first | rfl | (rw [h] at htype; cases htype)

/-- An announcement that leads to a call comes from another node of the domain. -/
theorem onDiscoveryMessage_announced {topics : List Bytes} {eps : List Endpoint}
    (h : agent.onDiscoveryMessage source (sender.announceFrame topics eps) = some call) :
    sender.domainId = agent.domainId ∧ sender.nodeId ≠ agent.nodeId ∧
      call = .addOrUpdate (sender.heardFrom topics eps source) := by
  have hvalid : (decode agent.sizeT (sender.announceFrame topics eps)).valid = true :=
    (onDiscoveryMessage_cases h).1
  have henc := MessageCodec.encodable_of_valid hvalid
  obtain ⟨hother, -⟩ := onDiscoveryMessage_announce h
  have hdomain : sender.domainId = agent.domainId := by
    by_contra hforeign
    rw [onDiscoveryMessage_foreign hforeign topics eps] at h
    cases h
  rw [onDiscoveryMessage_record hdomain hother source henc] at h
  exact ⟨hdomain, hother, (Option.some.inj h).symm⟩

end DiscoveryAgent

namespace MessageBus

variable {env : Env} {bus : MessageBus}

theorem selectEndpoint_mem {peer : PeerInfo} (h : peer.endpoints ≠ []) :
    bus.selectEndpoint env peer ∈ peer.endpoints := by
  have hfirst : ∀ {type : Bytes} {ep : Endpoint}, firstOf peer type = some ep →
      ep ∈ peer.endpoints := fun hfind => List.mem_of_find?_eq_some hfind
  rw [selectEndpoint]
  generalize hchosen : Option.or _ _ = chosen
  cases chosen with
  | none =>
      obtain ⟨ep, rest, heq⟩ := List.exists_cons_of_ne_nil h
      rw [Option.getD_none, heq]
      exact List.mem_cons_self
  | some ep =>
      obtain hshm | ⟨-, hrest⟩ := Option.or_eq_some_iff.mp hchosen
      · exact hfirst (Option.filter_eq_some_iff.mp hshm).1
      · obtain htcp | ⟨-, hudp⟩ := Option.or_eq_some_iff.mp hrest
        · exact hfirst (Option.filter_eq_some_iff.mp htcp).1
        · exact hfirst hudp

/-- A message goes to an endpoint of a target. -/
theorem publish_target {topic payload : Bytes} {qos : QoSProfile} {flags : UInt8} {number : Nat}
    {dest : Endpoint} {slices : List Bytes}
    (h : .frame number dest slices ∈ (bus.publish env topic payload qos flags).2) :
    ∃ id peer, bus.peers.lookup id = some peer ∧ Target topic peer ∧ dest ∈ peer.endpoints := by
  have hlisted : dest ∈ (bus.publish env topic payload qos flags).2.filterMap Effect.destination :=
    List.mem_filterMap.mpr ⟨_, h, rfl⟩
  rw [publish_destinations] at hlisted
  obtain ⟨entry, hentry, rfl⟩ := List.mem_map.mp hlisted
  obtain ⟨hmem, htarget⟩ := List.mem_filter.mp hentry
  have htarget : Target topic entry.2 := of_decide_eq_true htarget
  exact ⟨entry.1, entry.2, Table.mem_toList_iff.mp hmem, htarget, selectEndpoint_mem htarget.2⟩

end MessageBus

/-- A PUBLISH that was sent, now or again, is the frame of a message that was published. -/
theorem World.sent_publish {ι : Type} [DecidableEq ι] {D : Deployment ι} {w : World ι}
    (hw : (fitting D).Reachable w) {n : ι} {dest : Endpoint} {data : Bytes}
    (hsent : w.Sent n dest data) {sz : SizeT} (hvalid : (decode sz data).valid = true)
    (htype : MessageType.ofByte (decode sz data).header.msgType = .publish) :
    ∃ e ∈ w.log, e.node = n ∧ ∃ a stamp,
      (∃ number slices, .frame number dest slices ∈ e.effects) ∧ data = encode a stamp ∧
      e.call = .publish a.topic a.payload a.qos a.flags ∧ a.sourceId = D.nodeId n := by
  obtain ⟨number, e, hmem, hnode, slices, hframe, rfl⟩ | ⟨_, _, _, _, _, _, hanswer⟩ |
    ⟨q, ⟨b, stamp, _, rfl⟩, _⟩ := sent_cases hw.of_restrict hsent
  · obtain ⟨a, stamp, hdata, hargs⟩ := frame_content hw hmem hframe
    rw [hdata] at hvalid htype
    have henc := MessageCodec.encodable_of_valid hvalid
    rw [MessageCodec.decode_encode henc, MessageCodec.encodedHeader_type] at htype
    exact ⟨e, hmem, hnode, a, stamp, ⟨number, slices, hframe⟩, hdata, hargs.publish htype,
      hnode ▸ hargs.source⟩
  · cases hanswer
    all_goals
      rw [(decode_control _ _ _ _ _ _).1] at htype
      cases htype
  · rw [(decode_control _ _ _ _ _ _).1] at htype
    cases htype

namespace Network

variable {ι : Type} [DecidableEq ι] {F : Fleet ι} {s : Network ι}

/-- Every step of a participant keeps its invariant. -/
theorem inv_of_reachable (h : (system F).Reachable s) (n : ι) : (s.nodes n).Inv := by
  induction h with
  | init hinit =>
      rw [hinit.1]
      exact .start rfl rfl
  | @step s l _ henabled ih =>
      change ((s.step l).nodes n).Inv
      obtain ⟨rfl, hnode⟩ | ⟨-, hnode⟩ := step_node_cases (s := s) l n
      · rw [hnode]
        exact ih.exec henabled.1
      · rw [hnode]
        exact ih

/-! ### Announcements -/

/-- A step of the log has broadcast these topics and endpoints, which were what the node subscribed
to and its endpoints when the step was done. -/
def Announced (F : Fleet ι) (log : List (NetworkEntry ι)) (m : ι) (topics : List Bytes)
    (eps : List Endpoint) : Prop :=
  ∃ (after : Network ι) (e : NetworkEntry ι) (pre : List (NetworkEntry ι)),
    (fitting F).Reachable after ∧ after.log = e :: pre ∧ e :: pre <:+ log ∧ e.node = m ∧
    .broadcast ((F.agent m).announceFrame topics eps) ∈ e.effects ∧
    (after.nodes m).announcing = true ∧ (after.nodes m).bus.localTopics = topics ∧
    (after.nodes m).endpoints = eps

theorem Announced.mono {log more : List (NetworkEntry ι)} {m : ι} {topics : List Bytes}
    {eps : List Endpoint} (h : Announced F log m topics eps) (hlog : log <:+ more) :
    Announced F more m topics eps := by
  obtain ⟨after, e, pre, hreach, hentry, hsuffix, hrest⟩ := h
  exact ⟨after, e, pre, hreach, hentry, hsuffix.trans hlog, hrest⟩

/-- What is broadcast announces the subscriptions of a node, or says farewell. -/
theorem broadcast_cases (h : (fitting F).Reachable s) {m : ι} {frame : Bytes}
    (hsent : s.Broadcast m frame) :
    (∃ topics eps, Announced F s.log m topics eps ∧
        frame = (F.agent m).announceFrame topics eps) ∨
      frame = (F.agent m).farewellFrame := by
  obtain ⟨e, hmem, rfl, hframe⟩ := hsent
  obtain ⟨post, pre, hlog⟩ := List.append_of_mem hmem
  obtain ⟨before, hbefore, hpre, henabled, heffects⟩ := entry_origin h hlog
  have hafter : (fitting F).Reachable (before.step ⟨e.node, e.env, e.call⟩) :=
    .step hbefore henabled
  have hagent := (reachable_node hbefore.of_restrict e.node).1
  have hentry : (before.step ⟨e.node, e.env, e.call⟩).log = e :: pre := by
    rw [step_log, hpre, ← heffects]
  have hnode : (before.step ⟨e.node, e.env, e.call⟩).nodes e.node =
      (Participant.exec e.env e.call (before.nodes e.node)).1 := step_node_self _
  generalize before.step ⟨e.node, e.env, e.call⟩ = after at hafter hentry hnode
  have hagent' := (reachable_node hafter.of_restrict e.node).1
  have hinv := inv_of_reachable hafter.of_restrict e.node
  have hmine : .broadcast frame ∈ (Participant.exec e.env e.call (before.nodes e.node)).2 :=
    heffects ▸ hframe
  obtain hannounces | ⟨-, -, hfarewell⟩ := Participant.exec_broadcast henabled.1.1 hmine
  · rw [← hnode] at hannounces
    obtain ⟨hannouncing, heq⟩ := hannounces
    rw [hagent'] at heq
    have hlocal := hinv.topics (.inl (hinv.announcing hannouncing))
    have hsuffix : e :: pre <:+ s.log := hlog ▸ List.suffix_append post (e :: pre)
    exact .inl ⟨_, _, ⟨after, e, pre, hafter, hentry, hsuffix, rfl, heq ▸ hframe, hannouncing,
      hlocal.symm, rfl⟩, heq⟩
  · exact .inr (hagent ▸ hfarewell)

/-- What a node knows of a peer is what another node of the domain has announced. -/
def KnownFrom (F : Fleet ι) (log : List (NetworkEntry ι)) (n m : ι) (peer : PeerInfo) : Prop :=
  (F.agent m).domainId = (F.agent n).domainId ∧ (F.agent m).nodeId ≠ (F.agent n).nodeId ∧
    ∃ topics eps source, Announced F log m topics eps ∧
      (F.owner source = some m ∨ F.owner source = none) ∧
      peer = (F.agent m).heardFrom topics eps source

theorem KnownFrom.mono {log more : List (NetworkEntry ι)} {n m : ι} {peer : PeerInfo}
    (h : KnownFrom F log n m peer) (hlog : log <:+ more) : KnownFrom F more n m peer := by
  obtain ⟨hdomain, hother, topics, eps, source, hannounced, hrest⟩ := h
  exact ⟨hdomain, hother, topics, eps, source, hannounced.mono hlog, hrest⟩

/-- What an arriving datagram can make a registry do. -/
inductive Learns (F : Fleet ι) (log : List (NetworkEntry ι)) (n : ι) (source : Endpoint) :
    Bytes → PeerRegistry.Call → Prop
  | announced {m : ι} {topics : List Bytes} {eps : List Endpoint}
      (domain : (F.agent m).domainId = (F.agent n).domainId)
      (other : (F.agent m).nodeId ≠ (F.agent n).nodeId) (announced : Announced F log m topics eps)
      (owner : F.owner source = some m ∨ F.owner source = none) :
      Learns F log n source ((F.agent m).announceFrame topics eps)
        (.addOrUpdate ((F.agent m).heardFrom topics eps source))
  | farewell {m : ι} : Learns F log n source (F.agent m).farewellFrame
      (.remove (F.agent m).nodeId false)

theorem discovery_heard (h : (fitting F).Reachable s) {n : ι} {source : Endpoint} {data : Bytes}
    (harrives : s.Arrives F n source data) {call : PeerRegistry.Call}
    (hcall : (F.agent n).onDiscoveryMessage source data = some call) :
    Learns F s.log n source data call := by
  have hvalid := (DiscoveryAgent.onDiscoveryMessage_cases hcall).1
  obtain ⟨m, frame, ⟨dest, hsent, -⟩ | hbroadcast, hpart, howner⟩ := harrives
  · -- A frame of a bus leads to no call of the registry.
    have hworld := refines_world.reachable h
    obtain ⟨a, stamp, rfl, htype⟩ := World.sent_encode hworld (sent_world h.of_restrict hsent)
    obtain ⟨rfl, -⟩ := part_valid hpart hvalid
    rw [DiscoveryAgent.onDiscoveryMessage_other htype] at hcall
    cases hcall
  · obtain ⟨topics, eps, hannounced, hframe⟩ | hframe := broadcast_cases h hbroadcast
    · rw [hframe] at hpart
      obtain ⟨rfl, -⟩ := part_valid hpart hvalid
      obtain ⟨hdomain, hother, rfl⟩ := DiscoveryAgent.onDiscoveryMessage_announced hcall
      exact .announced hdomain hother hannounced howner
    · rw [hframe] at hpart
      have hdata : data = (F.agent m).farewellFrame := (part_valid hpart hvalid).1
      rw [hdata, DiscoveryAgent.onDiscoveryMessage_farewell] at hcall
      split at hcall
      · cases hcall
      · obtain rfl := Option.some.inj hcall
        rw [hdata]
        exact .farewell

theorem Learns.known {log : List (NetworkEntry ι)} {n : ι} {source : Endpoint} {data : Bytes}
    {call : PeerRegistry.Call} (h : Learns F log n source data call) {peer : PeerInfo}
    (hcall : call = .addOrUpdate peer) :
    ∃ m, peer.id = (F.agent m).nodeId ∧ KnownFrom F log n m peer := by
  cases h with
  | @announced m topics eps hdomain hother hannounced howner =>
      obtain rfl := PeerRegistry.Call.addOrUpdate.inj hcall
      exact ⟨m, DiscoveryAgent.heardFrom_id _ _, hdomain, hother, topics, eps, source, hannounced,
        howner, rfl⟩
  | farewell => cases hcall

/-- An announcement comes from an endpoint of its sender, or from one that nobody listens to. -/
theorem Learns.sender {log : List (NetworkEntry ι)} {n : ι} {source : Endpoint} {data : Bytes}
    {call : PeerRegistry.Call} (h : Learns F log n source data call) {peer : PeerInfo}
    (hcall : call = .addOrUpdate peer) :
    ∃ m, peer.id = (F.agent m).nodeId ∧ (F.owner source = some m ∨ F.owner source = none) := by
  cases h with
  | @announced m topics eps hdomain hother hannounced howner =>
      obtain rfl := PeerRegistry.Call.addOrUpdate.inj hcall
      exact ⟨m, DiscoveryAgent.heardFrom_id _ _, howner⟩
  | farewell => cases hcall

/-- Every record stems from an announcement of a node with this id. -/
theorem record_known (h : (fitting F).Reachable s) {n : ι} {id : UInt16} {rec : PeerRecord}
    (hrec : (s.nodes n).registry.records.lookup id = some rec) :
    ∃ m, (F.agent m).nodeId = id ∧ KnownFrom F s.log n m rec.info := by
  induction h generalizing rec with
  | init hinit =>
      rw [hinit.1] at hrec
      cases hrec
  | @step s l hreach henabled ih =>
      change ((s.step l).nodes n).registry.records.lookup id = some rec at hrec
      have hlog : s.log <:+ (s.step l).log := List.suffix_cons _ _
      have hold : ∀ old, (s.nodes n).registry.records.lookup id = some old →
          old.info = rec.info →
            ∃ m, (F.agent m).nodeId = id ∧ KnownFrom F (s.step l).log n m rec.info := by
        intro old hlookup hinfo
        obtain ⟨m, hid, hknown⟩ := ih hlookup
        exact ⟨m, hid, hinfo ▸ hknown.mono hlog⟩
      obtain ⟨rfl, hnode⟩ | ⟨-, hnode⟩ := step_node_cases (s := s) l n
      · rw [hnode] at hrec
        obtain ⟨registryCall, hasks, hexec⟩ | hquiet :=
          Participant.exec_cases l.env l.call (s.nodes l.node)
        · have hkeyed := (inv_of_reachable hreach.of_restrict l.node).keyed
          have hkeyed' := (PeerRegistry.perform_onPeer hkeyed l.env.now registryCall id).2.2
          rw [hexec, Participant.callRegistry_eq] at hrec
          have hid : rec.info.id = id := hkeyed' id rec hrec
          obtain rfl | ⟨old, hlookup, hinfo⟩ := PeerRegistry.perform_info hkeyed hrec
          · generalize hstep : l.call = call at hasks
            cases hasks with
            | received heard =>
                rw [(reachable_node hreach.of_restrict l.node).1] at heard
                obtain ⟨m, hpeer, hknown⟩ :=
                  (discovery_heard hreach (henabled.1.2 _ _ hstep) heard).known rfl
                exact ⟨m, hpeer.symm.trans hid, hknown.mono hlog⟩
          · exact hold old hlookup hinfo
        · rw [hquiet.registry] at hrec
          exact hold rec hrec rfl
      · rw [hnode] at hrec
        exact hold rec hrec rfl

/-- In every reachable state, what the routing table of a node says about a peer has been announced
by another node of the domain, which has the id of the peer. -/
theorem routes_known (h : (fitting F).Reachable s) {n : ι} {id : UInt16} {peer : PeerInfo}
    (hpeer : (s.nodes n).bus.peers.lookup id = some peer) :
    ∃ m known, (F.agent m).nodeId = id ∧ KnownFrom F s.log n m known ∧
      peer.subscribedTopics = known.subscribedTopics ∧ peer.endpoints = known.endpoints := by
  have hmirrors := (inv_of_reachable h.of_restrict n).mirrors id
  rw [hpeer] at hmirrors
  generalize hrec : (s.nodes n).registry.records.lookup id = rec at hmirrors
  cases rec with
  | none => cases hmirrors
  | some rec =>
      obtain ⟨m, hid, hknown⟩ := record_known h hrec
      exact ⟨m, rec.info, hid, hknown, hmirrors⟩

/-! ### Who gets a message -/

omit [DecidableEq ι] in
/-- What a bus has done is part of a step of its participant. -/
theorem mem_world_log {e : LogEntry ι} (hmem : e ∈ (world F s).log) :
    ∃ step ∈ s.log, step.node = e.node ∧ step.env = e.env ∧
      .called e.call e.effects ∈ step.effects := by
  obtain ⟨step, hstep, hentry⟩ := List.mem_flatMap.mp hmem
  obtain ⟨effect, heffect, hbus⟩ := List.mem_filterMap.mp (List.mem_reverse.mp hentry)
  cases effect with
  | called call effects =>
      simp only [busEntry] at hbus
      split at hbus
      · obtain rfl := Option.some.inj hbus
        exact ⟨step, hstep, rfl, rfl, heffect⟩
      · cases hbus
  | broadcast frame => cases hbus
  | peerEvent id name online => cases hbus

/-- The step at which a bus was called with a message of the user. -/
theorem publish_origin (h : (fitting F).Reachable s) {e : LogEntry ι}
    (hmem : e ∈ (world F s).log) {topic payload : Bytes} {qos : QoSProfile} {flags : UInt8}
    (hcall : e.call = .publish topic payload qos flags) :
    ∃ post step pre before, s.log = post ++ step :: pre ∧ step.node = e.node ∧
      step.call = .publish topic payload qos flags ∧ (fitting F).Reachable before ∧
      before.log = pre ∧
      e.effects = ((before.nodes e.node).bus.publish e.env topic payload qos flags).2 := by
  obtain ⟨step, hstep, hnode, henv, hcalled⟩ := mem_world_log hmem
  obtain ⟨post, pre, hlog⟩ := List.append_of_mem hstep
  obtain ⟨before, hbefore, hpre, -, heffects⟩ := entry_origin h hlog
  have hsound := Participant.exec_sound step.env step.call (before.nodes step.node)
  rw [hcall, heffects] at hcalled
  have hcause : step.call = .publish topic payload qos flags := hsound.causes _ _ hcalled
  refine ⟨post, step, pre, before, hlog, hnode, hcause, hbefore, hpre, ?_⟩
  rw [hcause] at hcalled
  have hsame := List.mem_singleton.mp hcalled
  rw [(NodeEffect.called.inj hsame).2, hnode, henv]
  rfl

/-- A PUBLISH frame is sent, now or again, under the id of the node that has published its message,
to an endpoint that a node with a matching subscription had announced before. -/
theorem publish_addressees (h : (fitting F).Reachable s) {n : ι} {dest : Endpoint} {frame : Bytes}
    (hsent : s.Sent n dest frame) {sz : SizeT} (hvalid : (decode sz frame).valid = true)
    (htype : MessageType.ofByte (decode sz frame).header.msgType = .publish) :
    (decode sz frame).header.sourceId = (F.agent n).nodeId ∧
    ∃ post step pre qos flags m known, s.log = post ++ step :: pre ∧ step.node = n ∧
      step.call = .publish (decode sz frame).topic (decode sz frame).payload qos flags ∧
      KnownFrom F pre n m known ∧ MessageBus.Target (decode sz frame).topic known ∧
      dest ∈ known.endpoints := by
  have hworld := refines_world.reachable h
  obtain ⟨e, hmem, rfl, a, stamp, hframe, rfl, hargs, hsource⟩ :=
    World.sent_publish hworld (sent_world h.of_restrict hsent) hvalid htype
  have henc := MessageCodec.encodable_of_valid hvalid
  obtain ⟨number, slices, hframe⟩ := hframe
  obtain ⟨post, step, pre, before, hlog, hnode, hcall, hbefore, hpre, heffects⟩ :=
    publish_origin h hmem hargs
  rw [heffects] at hframe
  obtain ⟨id, peer, hpeer, htarget, hdest⟩ := MessageBus.publish_target hframe
  obtain ⟨m, known, -, hknown, htopics, hendpoints⟩ := routes_known hbefore hpeer
  rw [MessageCodec.decode_encode henc]
  refine ⟨hsource, post, step, pre, a.qos, a.flags, m, known, hlog, hnode, hcall, hpre ▸ hknown,
    ?_, hendpoints ▸ hdest⟩
  rw [MessageBus.Target, htopics, hendpoints] at htarget
  exact htarget

end Network

/-! ### Two participants -/

namespace Party

/-- The sender and the receiver as participants, with a datagram endpoint each. -/
def fleet : Fleet Party where
  owner := deployment.owner
  agent p := { nodeId := nodeId p, nodeName := [], hostName := [] }
  config _ := {}
  endpoints p := [endpoint p]

/-- A step of a participant, with all transports active. -/
def step (node : Party) (now : Int) (call : Participant.Call) : Network.Label Party where
  node := node
  env := (node.call now .start).env
  call := call

def origin : Network Party := ⟨fleet.participant, []⟩

/-- The receiver subscribes to a topic. -/
def subscribed : Network Party := (Network.fitting fleet).exec origin
  [step receiver 0 .init, step receiver 0 (.createSubscriber [0x74] 7 {}), step sender 0 .init]

/-- Its announcement. -/
def announcement : Bytes := (fleet.agent receiver).announceFrame [[0x74]] [endpoint receiver]

/-- The sender hears of it. -/
def informed : Network Party :=
  subscribed.step (step sender 0 (.received (endpoint receiver) announcement))

/-- It publishes a message. -/
def told : Network Party := informed.step (step sender 0 (.publish [0x74] [42] {} 0))

theorem enabled_of_quiet {s : Network Party} {node : Party} {now : Int} {call : Participant.Call}
    (henabled : (s.nodes node).Enabled call)
    (hreceived : ∀ source data, call ≠ .received source data)
    (hpublish : ∀ topic payload qos flags, call ≠ .publish topic payload qos flags) :
    (Network.fitting fleet).enabled s (step node now call) :=
  ⟨⟨henabled, fun source data hcall => absurd hcall (hreceived source data)⟩,
    fun topic payload qos flags hcall => absurd hcall (hpublish topic payload qos flags)⟩

theorem subscribed_reachable : (Network.fitting fleet).Reachable subscribed := by
  refine TransitionSystem.Reachable.exec (.init ⟨rfl, rfl⟩) ⟨?_, ?_, ?_, trivial⟩
  all_goals exact enabled_of_quiet rfl (by rintro _ _ ⟨⟩) (by rintro _ _ _ _ ⟨⟩)

theorem subscribed_broadcast : subscribed.Broadcast receiver announcement :=
  ⟨_, .tail _ (.head _), rfl, .tail _ (.head _)⟩

theorem informed_reachable : (Network.fitting fleet).Reachable informed := by
  refine subscribed_reachable.step ⟨⟨rfl, ?_⟩, by rintro _ _ _ _ ⟨⟩⟩
  rintro source data ⟨⟩
  exact ⟨receiver, announcement, .inr subscribed_broadcast, .inl rfl, .inl rfl⟩

theorem told_reachable : (Network.fitting fleet).Reachable told := by
  refine informed_reachable.step ⟨⟨by decide +kernel, by rintro _ _ ⟨⟩⟩, ?_⟩
  rintro topic payload qos flags ⟨⟩ topic payload qos flags ⟨⟩
  exact .inr (by decide)

theorem told_sent : told.Sent sender (endpoint receiver) (firstFrame {}) :=
  ⟨_, .head _, rfl, _, _, .head _, by decide +kernel⟩

end Party

open Party

theorem Network.routes_known_informed : ∃ m known, (fleet.agent m).nodeId = 2 ∧
    KnownFrom fleet informed.log sender m known ∧ known.subscribedTopics = [[0x74]] := by
  have hpeer : (informed.nodes sender).bus.peers.lookup 2 =
      some ((fleet.agent receiver).heardFrom [[0x74]] [endpoint receiver] (endpoint receiver)) := by
    decide +kernel
  obtain ⟨m, known, hid, hknown, htopics, -⟩ := routes_known informed_reachable hpeer
  exact ⟨m, known, hid, hknown, htopics.symm⟩

theorem Network.publish_addressees_told : ∃ post step pre m known, told.log = post ++ step :: pre ∧
    step.node = sender ∧ KnownFrom fleet pre sender m known ∧ MessageBus.Target [0x74] known ∧
    endpoint receiver ∈ known.endpoints := by
  have hvalid : (decode .bits64 (firstFrame {})).valid = true := by decide +kernel
  have htype : MessageType.ofByte (decode .bits64 (firstFrame {})).header.msgType = .publish := by
    decide +kernel
  have htopic : (decode .bits64 (firstFrame {})).topic = [0x74] := by decide +kernel
  obtain ⟨-, post, step, pre, _, _, m, known, hlog, hnode, -, hknown, htarget, hdest⟩ :=
    publish_addressees told_reachable told_sent hvalid htype
  rw [htopic] at htarget
  exact ⟨post, step, pre, m, known, hlog, hnode, hknown, htarget, hdest⟩

end EmbedMq
