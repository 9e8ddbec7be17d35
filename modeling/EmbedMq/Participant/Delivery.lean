import EmbedMq.Participant.Convergence

/-!
# What can be delivered

No state that the participants reach keeps two of them apart: if both run, and one of them has a
subscription, then an announcement, a message and their arrival bring the message to the
callbacks of the subscription.
-/

namespace EmbedMq

open MessageCodec (decode encode Encodable)

namespace MessageBus

variable {bus : MessageBus}

/-- A message that needs no duplicate check is routed to the callbacks for its topic. -/
theorem onReceived_routes (env : Env) (source : Endpoint) {data : Bytes}
    (hvalid : (decode bus.sizeT data).valid = true)
    (htype : MessageType.ofByte (decode bus.sizeT data).header.msgType = .publish)
    (hlevel : QoSLevel.ofByte (decode bus.sizeT data).header.qosLevel ≠ .exactlyOnce) :
    .route (publishedMessage (decode bus.sizeT data))
        (bus.router.route (decode bus.sizeT data).topic) ∈ (bus.onReceived env source data).2 := by
  rw [onReceived_data env rfl hvalid (by rw [htype]; rfl), receiveData_unchecked env hlevel]
  refine List.mem_append_right _ ?_
  obtain ⟨store, hstore⟩ := retain_shape env bus (decode bus.sizeT data).header.flags
    { topic := (decode bus.sizeT data).topic, payload := (decode bus.sizeT data).payload
      sourceId := (decode bus.sizeT data).header.sourceId
      sequenceId := (decode bus.sizeT data).header.sequenceId } 0
  simp only [dispatch, htype, deliverPublish, hstore]
  exact List.mem_singleton.mpr rfl

end MessageBus

namespace Participant

variable {env : Env} {p : Participant} {source : Endpoint} {a : MessageCodec.EncodeArgs}

/-- A frame for the bus. -/
theorem recvCallback_bus (henc : Encodable a) (stamp : UInt64)
    (htype : DiscoveryAgent.isDiscovery a.type = false) :
    recvCallback env source (encode a stamp) p =
      callBus env (.received source (encode a stamp)) p := by
  rw [recvCallback, if_pos (admitted_encode henc stamp),
    if_neg (by rw [Network.encode_type henc, htype]; exact Bool.false_ne_true)]

end Participant

namespace Network

variable {ι : Type} [DecidableEq ι] {F : Fleet ι} {s : Network ι}

/-- The first endpoint of a peer is where its announcement came from. -/
theorem selectEndpoint_datagrams {bus : MessageBus} {peer : PeerInfo} {source : Endpoint}
    {rest : List Endpoint} (heps : peer.endpoints = source :: rest)
    (hudp : source.transportType = MessageBus.udp) :
    bus.selectEndpoint datagrams peer = source := by
  have hshm : datagrams.active MessageBus.shm = false := by decide
  have htcp : datagrams.active MessageBus.tcp = false := by decide
  have hfirst : MessageBus.firstOf peer MessageBus.udp = some source := by
    rw [MessageBus.firstOf, heps, List.find?_cons_of_pos (by simpa using hudp)]
  simp [MessageBus.selectEndpoint, hshm, htcp, hfirst]

/-- A node sends a message to a peer that has announced a matching subscription. -/
theorem publish_step (h : (fitting F).Reachable s) {n : ι} (hcreated : (s.nodes n).created = true)
    {id : UInt16} {peer : PeerInfo} (hpeer : (s.nodes n).bus.peers.lookup id = some peer)
    {source : Endpoint} {rest : List Endpoint} (heps : peer.endpoints = source :: rest)
    (hudp : source.transportType = MessageBus.udp) {topic payload : Bytes} {qos : QoSProfile}
    {flags : UInt8} (htarget : MessageBus.Target topic peer)
    (hfits : MessageBus.Fits topic payload) :
    ∃ t, (fitting F).LeadsIn 1 s t ∧ (∀ k, k ≠ n → t.nodes k = s.nodes k) ∧ ∃ a stamp,
      t.Sent n source (encode a stamp) ∧ Encodable a ∧ a.type = .publish ∧ a.topic = topic ∧
      a.payload = payload ∧ a.qos = qos ∧ a.sourceId = (F.agent n).nodeId := by
  let l : Label ι := ⟨n, datagrams, .publish topic payload qos flags⟩
  have henabled : (fitting F).enabled s l := by
    refine ⟨⟨hcreated, by rintro _ _ ⟨⟩⟩, ?_⟩
    rintro _ _ _ _ ⟨⟩ _ _ _ _ ⟨⟩
    exact .inr ⟨hfits.1, hfits.2⟩
  -- The frame for the peer is among what the bus sends.
  have hdest : source ∈ ((s.nodes n).bus.publish datagrams topic payload qos flags).2.filterMap
      Effect.destination := by
    rw [MessageBus.publish_destinations]
    refine List.mem_map.mpr ⟨(id, peer), List.mem_filter.mpr
      ⟨Table.mem_toList_iff.mpr hpeer, decide_eq_true htarget⟩, ?_⟩
    exact selectEndpoint_datagrams heps hudp
  obtain ⟨effect, hmem, heffect⟩ := List.mem_filterMap.mp hdest
  cases effect with
  | frame number dest slices =>
      obtain rfl : dest = source := Option.some.inj heffect
      obtain ⟨hnode, -⟩ := reachable_bus h.of_restrict n
      have hcontent := (MessageBus.publish_emission datagrams (s.nodes n).bus topic payload qos
        flags).content hmem
      have hsent : (s.step l).Sent n dest slices.flatten :=
        ⟨_, .head _, rfl, _, _, .head _, _, hmem, rfl⟩
      refine ⟨s.step l, .single henabled, fun k hk => step_node_ne l hk, ?_⟩
      generalize slices.flatten = data at hcontent hsent
      cases hcontent with
      | publish hb stamp =>
          exact ⟨_, stamp, hsent, hfits, rfl, rfl, rfl, rfl, hb.trans hnode⟩
      | raw hlevel hlong =>
          obtain htopic | hpayload := hlong
          · exact absurd hfits.1 (Nat.not_le.mpr htopic)
          · exact absurd hfits.2 (Nat.not_le.mpr hpayload)
      | request hb stamp hcall =>
          obtain hcall | ⟨_, _, _, _, _, hcall⟩ := hcall
          · cases hcall
          · cases hcall
  | _ => cases heffect

/-- A node hands a message that arrives to the callbacks for its topic. -/
theorem receive_step {n m : ι} {dest source : Endpoint} {a : MessageCodec.EncodeArgs}
    {stamp : UInt64} (hsent : s.Sent n dest (encode a stamp)) (hdest : F.owner dest = some m)
    (hsource : F.owner source = some n ∨ F.owner source = none)
    (hrunning : (s.nodes m).running = true) (henc : Encodable a) (htype : a.type = .publish)
    (hlevel : a.qos.level ≠ .exactlyOnce) :
    ∃ t, (fitting F).LeadsIn 1 s t ∧ ∃ e effects msg, t.log = e :: s.log ∧ e.node = m ∧
      .called (.received source (encode a stamp)) effects ∈ e.effects ∧
      .route msg ((s.nodes m).bus.router.route a.topic) ∈ effects ∧
      msg.topic = a.topic ∧ msg.payload = a.payload ∧ msg.sourceId = a.sourceId := by
  let l : Label ι := ⟨m, datagrams, .received source (encode a stamp)⟩
  have henabled : (fitting F).enabled s l := by
    refine ⟨⟨hrunning, ?_⟩, by rintro _ _ _ _ ⟨⟩⟩
    rintro _ _ ⟨⟩
    exact ⟨n, _, .inl ⟨dest, hsent, hdest⟩, .inl rfl, hsource⟩
  have hdecode := MessageCodec.decode_encode henc stamp (s.nodes m).bus.sizeT
  have hroutes := @MessageBus.onReceived_routes (s.nodes m).bus datagrams source (encode a stamp)
    (by rw [hdecode])
    (by rw [hdecode, MessageCodec.encodedHeader_type]; exact htype)
    (by rw [hdecode, MessageCodec.encodedHeader_level]; exact hlevel)
  rw [hdecode] at hroutes
  refine ⟨s.step l, .single henabled, _, _, _, rfl, rfl, ?_, hroutes, rfl, rfl, rfl⟩
  change _ ∈ (Participant.recvCallback datagrams source (encode a stamp) (s.nodes m)).2
  rw [Participant.recvCallback_bus henc stamp (by rw [htype]; rfl)]
  exact .head _

/-- From every reachable state in which two nodes of a domain run, a message of the one can reach
the callbacks of the other that subscribes to it, if the announcement and the message fit a
datagram, and that in four steps. -/
theorem deliverable (h : (fitting F).Reachable s) {n m : ι}
    (hsender : (s.nodes n).running = true) (hreceiver : (s.nodes m).running = true)
    (hannouncing : (s.nodes m).announcing = true)
    (hdomain : (F.agent m).domainId = (F.agent n).domainId)
    (hother : (F.agent m).nodeId ≠ (F.agent n).nodeId) {source : Endpoint}
    (howner : F.owner source = some m) (hudp : source.transportType = MessageBus.udp)
    (hsize : (F.agent m).announceSize (s.nodes m).bus.localTopics (s.nodes m).endpoints ≤ 2048)
    {sub topic payload : Bytes} {qos : QoSProfile} {flags : UInt8}
    (hsub : sub ∈ (s.nodes m).bus.localTopics.take 255) (hshort : sub.length ≤ 0xFFFF)
    (hmatch : TopicRouter.matchWildcard sub topic = true ∨ sub = topic)
    (hframe : 38 + topic.length + payload.length ≤ 2048) (hlevel : qos.level ≠ .exactlyOnce)
    {from' : Endpoint} (hfrom : F.owner from' = some n ∨ F.owner from' = none) :
    ∃ t, (fitting F).LeadsIn 4 s t ∧ ∃ e older data effects msg, t.log = e :: older ∧ e.node = m ∧
      .called (.received from' data) effects ∈ e.effects ∧
      .route msg ((s.nodes m).bus.router.route topic) ∈ effects ∧
      msg.topic = topic ∧ msg.payload = payload ∧ msg.sourceId = (F.agent n).nodeId := by
  have hne : m ≠ n := by
    rintro rfl
    exact hother rfl
  obtain ⟨t₁, hleads₁, hnodes₁, hsent₁⟩ := announce_step h hannouncing
  have hreach₁ := h.leads hleads₁.leads
  obtain ⟨t₂, hleads₂, hnodes₂, hrunning, -, peer, rest, hpeer, htopics, heps⟩ :=
    hear_step hreach₁ hdomain hother (by rw [hnodes₁]; exact hsize) hsent₁
      (by rw [hnodes₁]; exact hsender) howner
  have hreach₂ := hreach₁.leads hleads₂.leads
  have hcreated := (inv_of_reachable hreach₂.of_restrict n).created hrunning
  have htarget : MessageBus.Target topic peer := by
    refine ⟨List.any_eq_true.mpr ⟨sub, ?_, ?_⟩, by rw [heps]; exact List.cons_ne_nil _ _⟩
    · rw [htopics, hnodes₁]
      exact List.mem_map.mpr ⟨sub, hsub, List.take_of_length_le hshort⟩
    · simpa using hmatch
  have hfits : MessageBus.Fits topic payload := by
    constructor
    · change topic.length ≤ 65535
      omega
    · change payload.length ≤ 67108864
      omega
  obtain ⟨t₃, hleads₃, hnodes₃, a, stamp, hsent₃, henc, htype, rfl, rfl, rfl, hid⟩ :=
    @publish_step _ _ _ _ hreach₂ n hcreated _ _ hpeer _ _ heps hudp _ _ qos flags htarget hfits
  -- The receiver is as it was.
  have hsame : t₃.nodes m = s.nodes m := by
    rw [hnodes₃ m hne, hnodes₂ m hne, hnodes₁]
  obtain ⟨t₄, hleads₄, e, effects, msg, hlog, hnode, hcalled, hroute, htopic, hpayload, hsource⟩ :=
    receive_step hsent₃ howner hfrom (by rw [hsame]; exact hreceiver) henc htype hlevel
  rw [hsame] at hroute
  exact ⟨t₄, ((hleads₁.trans hleads₂).trans hleads₃).trans hleads₄, e, _, _, effects, msg, hlog,
    hnode, hcalled, hroute, htopic, hpayload, hsource.trans hid⟩

end Network

open Party

theorem Network.deliverable_subscribed : ∃ t, (fitting fleet).LeadsIn 4 subscribed t ∧
    ∃ e older data effects msg, t.log = e :: older ∧ e.node = receiver ∧
      .called (.received (endpoint sender) data) effects ∈ e.effects ∧
      .route msg [7] ∈ effects ∧ msg.topic = [0x74] ∧ msg.payload = [42] ∧ msg.sourceId = 1 :=
  @deliverable _ _ fleet _ subscribed_reachable sender receiver rfl rfl rfl rfl (by decide)
    (endpoint receiver) rfl rfl (by decide) [0x74] [0x74] [42] {} 0 (by decide) (by decide)
    (.inr rfl) (by decide) (by decide) (endpoint sender) (.inl rfl)

end EmbedMq
