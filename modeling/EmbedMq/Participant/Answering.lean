import EmbedMq.Bus.Replies
import EmbedMq.Participant.Delivery

/-!
# What can be answered

A request finds its way as a message does, and its answer finds the way back: no state that the
participants reach keeps a running requester from a running replier.
-/

namespace EmbedMq

open MessageCodec (decode encode Encodable)

namespace MessageBus

variable {env : Env} {bus : MessageBus} {service payload : Bytes} {qos : QoSProfile}
  {corrId : UInt32}

/-- A request that the bus does not serve itself is sent to the providers, and waits. -/
theorem sendRequest_asks (hnone : bus.serviceHandlers.lookup service = none) {dest : Endpoint}
    (hdest : dest ∈ bus.targets env fun sub => decide (sub = svcPrefix ++ service))
    (timeoutOverride : Int) :
    (bus.sendRequest env service payload qos corrId timeoutOverride).1.pendingRequests.lookup
        corrId ≠ none ∧
      ∃ number stamp, .frame number dest
        [encode (bus.requestArgs service payload qos corrId (UInt32.ofNat number)) stamp] ∈
          (bus.sendRequest env service payload qos corrId timeoutOverride).2 := by
  -- The table of the pending requests is not looked at for the addressees.
  have hsome : ∀ requests, (targets env { bus with pendingRequests := requests }
      fun sub => decide (sub = svcPrefix ++ service)).isEmpty = false :=
    fun _ => List.isEmpty_eq_false_iff.mpr (List.ne_nil_of_mem hdest)
  simp only [sendRequest, hnone, dispatchRequest, hsome, Bool.false_eq_true, if_false,
    Bool.not_true, Bool.false_and]
  refine ⟨?_, bus.seqCounter, _, List.mem_map.mpr ⟨dest, hdest, rfl⟩⟩
  rw [Table.lookup_insert_eq, if_pos rfl]
  exact Option.some_ne_none _

variable {source : Endpoint} {data : Bytes}

/-- A request for a service with a handler is answered, if it was not answered before. -/
theorem onReceived_serves (hvalid : (decode bus.sizeT data).valid = true)
    (htype : MessageType.ofByte (decode bus.sizeT data).header.msgType = .request)
    (hlevel : QoSLevel.ofByte (decode bus.sizeT data).header.qosLevel ≠ .exactlyOnce)
    (hcache : bus.replyCache.lookup (replyKey (decode bus.sizeT data).header.sourceId
      (decode bus.sizeT data).header.correlationId) = none) {handler : Nat}
    (hhandler : bus.serviceHandlers.lookup (serviceName (decode bus.sizeT data).topic) =
      some handler) :
    ∃ number stamp, .frame number source
      [encode (bus.replyArgs
        (env.invoke handler
          { topic := serviceName (decode bus.sizeT data).topic
            payload := (decode bus.sizeT data).payload
            sourceId := (decode bus.sizeT data).header.sourceId
            sequenceId := (decode bus.sizeT data).header.sequenceId
            correlationId := (decode bus.sizeT data).header.correlationId })
        { level := QoSLevel.ofByte (decode bus.sizeT data).header.qosLevel }
        (decode bus.sizeT data).header.correlationId (UInt32.ofNat number)) stamp] ∈
      (bus.onReceived env source data).2 := by
  rw [onReceived_data env rfl hvalid (by rw [htype]; rfl), receiveData_unchecked env hlevel]
  refine ⟨bus.seqCounter, env.stamp (UInt32.ofNat bus.seqCounter), List.mem_append_right _ ?_⟩
  simp only [dispatch, htype, serveRequest, hcache, hhandler, sendReply]
  refine List.mem_cons_of_mem _ ?_
  split
  · exact .head _
  · exact .head _

/-- A reply settles the request that waits for it. -/
theorem onReceived_settles (hvalid : (decode bus.sizeT data).valid = true)
    (htype : MessageType.ofByte (decode bus.sizeT data).header.msgType = .reply)
    (hlevel : QoSLevel.ofByte (decode bus.sizeT data).header.qosLevel ≠ .exactlyOnce)
    (hpending : bus.pendingRequests.lookup (decode bus.sizeT data).header.correlationId ≠ none) :
    .settle (decode bus.sizeT data).header.correlationId
      (.value (decode bus.sizeT data).payload) ∈ (bus.onReceived env source data).2 := by
  obtain ⟨pr, hpr⟩ := Option.ne_none_iff_exists'.mp hpending
  rw [onReceived_reply rfl hvalid htype, if_neg hlevel]
  simp only [completeRequest, hpr]
  exact List.mem_append_right _ (List.mem_singleton.mpr rfl)

end MessageBus

namespace Network

variable {ι : Type} [DecidableEq ι] {F : Fleet ι} {s : Network ι}

/-- The environment of a node whose handlers are called. -/
def serving (invoke : Nat → ReceivedMessage → Bytes) : Env := { datagrams with invoke }

/-- A frame that a bus builds in one piece is sent by its node. -/
theorem sent_of_frame {l : Label ι} {call : MessageBus.Call} {effects : List Effect} {number : Nat}
    {dest : Endpoint} {data : Bytes}
    (hcalled : .called call effects ∈ (Participant.exec l.env l.call (s.nodes l.node)).2)
    (hframe : .frame number dest [data] ∈ effects) : (s.step l).Sent l.node dest data := by
  refine ⟨_, .head _, rfl, call, effects, hcalled, _, hframe, ?_⟩
  rw [Effect.packet, List.flatten_singleton]

/-- A node sends a request to a peer that has announced the service. -/
theorem request_step (h : (fitting F).Reachable s) {n : ι} (hrunning : (s.nodes n).running = true)
    {service payload : Bytes} {qos : QoSProfile} {corrId : UInt32} {timeoutOverride : Int}
    (hnone : (s.nodes n).bus.serviceHandlers.lookup service = none)
    {id : UInt16} {peer : PeerInfo} (hpeer : (s.nodes n).bus.peers.lookup id = some peer)
    (hlisted : MessageBus.svcPrefix ++ service ∈ peer.subscribedTopics)
    {source : Endpoint} {rest : List Endpoint} (heps : peer.endpoints = source :: rest)
    (hudp : source.transportType = MessageBus.udp) :
    ∃ t, (fitting F).LeadsIn 1 s t ∧ (∀ k, k ≠ n → t.nodes k = s.nodes k) ∧
      (t.nodes n).running = true ∧ (t.nodes n).bus.pendingRequests.lookup corrId ≠ none ∧
      ∃ a stamp, t.Sent n source (encode a stamp) ∧ a.type = .request ∧
        a.topic = MessageBus.svcPrefix ++ service ∧ a.payload = payload ∧ a.qos = qos ∧
        a.sourceId = (F.agent n).nodeId ∧ a.correlationId = corrId := by
  let l : Label ι := ⟨n, datagrams, .sendRequest service payload qos corrId timeoutOverride⟩
  have henabled : (fitting F).enabled s l := by
    refine ⟨⟨(inv_of_reachable h.of_restrict n).created hrunning, by rintro _ _ ⟨⟩⟩, ?_⟩
    rintro _ _ _ _ ⟨⟩
  have htarget : source ∈ (s.nodes n).bus.targets datagrams
      fun sub => decide (sub = MessageBus.svcPrefix ++ service) := by
    refine (MessageBus.mem_targets _ _).mpr ⟨id, peer, hpeer, ?_, ?_, ?_⟩
    · exact List.any_eq_true.mpr ⟨_, hlisted, decide_eq_true rfl⟩
    · rw [heps]
      exact List.cons_ne_nil _ _
    · exact (selectEndpoint_datagrams heps hudp).symm
  obtain ⟨hpending, number, stamp, hframe⟩ := @MessageBus.sendRequest_asks datagrams (s.nodes n).bus
    service payload qos corrId hnone _ htarget timeoutOverride
  have hnode : (s.step l).nodes n = { s.nodes n with
      bus := ((s.nodes n).bus.sendRequest datagrams service payload qos corrId
        timeoutOverride).1 } := step_node_self l
  have hsent := sent_of_frame (l := l) (.head _) hframe
  refine ⟨s.step l, .single henabled, fun k hk => step_node_ne l hk, ?_, ?_,
    _, stamp, hsent, rfl, rfl, rfl, rfl, (reachable_bus h.of_restrict n).1, rfl⟩
  · rw [hnode]
    exact hrunning
  · rw [hnode]
    exact hpending

/-- A node answers a request that arrives. -/
theorem serve_step {n m : ι} {dest source : Endpoint}
    {a : MessageCodec.EncodeArgs} {stamp : UInt64} (hsent : s.Sent n dest (encode a stamp))
    (hdest : F.owner dest = some m)
    (hsource : F.owner source = some n ∨ F.owner source = none)
    (hrunning : (s.nodes m).running = true) (henc : Encodable a) (htype : a.type = .request)
    (hlevel : a.qos.level ≠ .exactlyOnce) {service : Bytes}
    (htopic : a.topic = MessageBus.svcPrefix ++ service) {handler : Nat}
    (hhandler : (s.nodes m).bus.serviceHandlers.lookup service = some handler)
    (hcache : (s.nodes m).bus.replyCache.lookup
      (MessageBus.replyKey a.sourceId a.correlationId) = none)
    (invoke : Nat → ReceivedMessage → Bytes) :
    ∃ t, (fitting F).LeadsIn 1 s t ∧ (∀ k, k ≠ m → t.nodes k = s.nodes k) ∧
      ∃ b stamp' req, t.Sent m source (encode b stamp') ∧ b.type = .reply ∧ b.topic = [] ∧
        b.payload = invoke handler req ∧ b.qos.level = a.qos.level ∧
        b.correlationId = a.correlationId ∧ req.topic = service ∧ req.payload = a.payload ∧
        req.sourceId = a.sourceId ∧ req.correlationId = a.correlationId := by
  let l : Label ι := ⟨m, serving invoke, .received source (encode a stamp)⟩
  have henabled : (fitting F).enabled s l := by
    refine ⟨⟨hrunning, ?_⟩, by rintro _ _ _ _ ⟨⟩⟩
    rintro _ _ ⟨⟩
    exact ⟨n, _, .inl ⟨dest, hsent, hdest⟩, .inl rfl, hsource⟩
  have hdecode := MessageCodec.decode_encode henc stamp (s.nodes m).bus.sizeT
  have hname : MessageBus.serviceName a.topic = service := by
    rw [htopic, MessageBus.serviceName_svcPrefix]
  obtain ⟨number, stamp', hframe⟩ := @MessageBus.onReceived_serves (serving invoke)
    (s.nodes m).bus source (encode a stamp) (by rw [hdecode])
    (by rw [hdecode, MessageCodec.encodedHeader_type]; exact htype)
    (by rw [hdecode, MessageCodec.encodedHeader_level]; exact hlevel)
    (by rw [hdecode]; exact hcache) handler
    (by rw [hdecode]; exact hname ▸ hhandler)
  rw [hdecode] at hframe
  have hexec : Participant.exec l.env l.call (s.nodes m) =
      Participant.callBus l.env (.received source (encode a stamp)) (s.nodes m) :=
    Participant.recvCallback_bus henc stamp (by rw [htype]; rfl)
  -- The reply is what the one call of the bus sends.
  have hcalled : .called (.received source (encode a stamp))
      ((s.nodes m).bus.onReceived (serving invoke) source (encode a stamp)).2 ∈
        (Participant.exec l.env l.call (s.nodes m)).2 := by
    rw [hexec]
    exact .head _
  have hreply := sent_of_frame (l := l) hcalled hframe
  exact ⟨s.step l, .single henabled, fun k hk => step_node_ne l hk, _, stamp', _, hreply,
    rfl, rfl, rfl, MessageCodec.encodedHeader_level a stamp, rfl, hname, rfl, rfl, rfl⟩

/-- A node whose request waits takes the reply that arrives. -/
theorem settle_step {n m : ι} {dest source : Endpoint} {b : MessageCodec.EncodeArgs}
    {stamp : UInt64} (hsent : s.Sent m dest (encode b stamp)) (hdest : F.owner dest = some n)
    (hsource : F.owner source = some m ∨ F.owner source = none)
    (hrunning : (s.nodes n).running = true) (henc : Encodable b) (htype : b.type = .reply)
    (hlevel : b.qos.level ≠ .exactlyOnce)
    (hpending : (s.nodes n).bus.pendingRequests.lookup b.correlationId ≠ none) :
    ∃ t, (fitting F).LeadsIn 1 s t ∧ ∃ e effects, t.log = e :: s.log ∧ e.node = n ∧
      .called (.received source (encode b stamp)) effects ∈ e.effects ∧
      .settle b.correlationId (.value b.payload) ∈ effects := by
  let l : Label ι := ⟨n, datagrams, .received source (encode b stamp)⟩
  have henabled : (fitting F).enabled s l := by
    refine ⟨⟨hrunning, ?_⟩, by rintro _ _ _ _ ⟨⟩⟩
    rintro _ _ ⟨⟩
    exact ⟨m, _, .inl ⟨dest, hsent, hdest⟩, .inl rfl, hsource⟩
  have hdecode := MessageCodec.decode_encode henc stamp (s.nodes n).bus.sizeT
  have hsettles := @MessageBus.onReceived_settles datagrams (s.nodes n).bus source (encode b stamp)
    (by rw [hdecode])
    (by rw [hdecode, MessageCodec.encodedHeader_type]; exact htype)
    (by rw [hdecode, MessageCodec.encodedHeader_level]; exact hlevel)
    (by rw [hdecode]; exact hpending)
  rw [hdecode] at hsettles
  refine ⟨s.step l, .single henabled, _, _, rfl, rfl, ?_, hsettles⟩
  change _ ∈ (Participant.recvCallback datagrams source (encode b stamp) (s.nodes n)).2
  rw [Participant.recvCallback_bus henc stamp (by rw [htype]; rfl)]
  exact .head _

/-- From every reachable state in which a replier for a service and another node of its domain
run, a request of that node can be answered with what the handler returns for it, if the
announcement, the request and the reply fit a datagram and the replier has not cached a reply for
the id of the request, and that in five steps. -/
theorem answerable (h : (fitting F).Reachable s) {n m : ι}
    (hrequester : (s.nodes n).running = true) (hreplier : (s.nodes m).running = true)
    (hannouncing : (s.nodes m).announcing = true)
    (hdomain : (F.agent m).domainId = (F.agent n).domainId)
    (hother : (F.agent m).nodeId ≠ (F.agent n).nodeId) {source from' : Endpoint}
    (howner : F.owner source = some m) (hudp : source.transportType = MessageBus.udp)
    (hfrom : F.owner from' = some n)
    (hsize : (F.agent m).announceSize (s.nodes m).bus.localTopics (s.nodes m).endpoints ≤ 2048)
    {service payload : Bytes} {qos : QoSProfile} {corrId : UInt32} {timeoutOverride : Int}
    {handler : Nat} (hhandler : (s.nodes m).bus.serviceHandlers.lookup service = some handler)
    (hlisted : MessageBus.svcPrefix ++ service ∈ (s.nodes m).bus.localTopics.take 255)
    (hremote : (s.nodes n).bus.serviceHandlers.lookup service = none)
    (hfresh : (s.nodes m).bus.replyCache.lookup
      (MessageBus.replyKey (F.agent n).nodeId corrId) = none)
    (hlevel : qos.level ≠ .exactlyOnce)
    (hrequest : 38 + (MessageBus.svcPrefix ++ service).length + payload.length ≤ 2048)
    {invoke : Nat → ReceivedMessage → Bytes}
    (hreply : ∀ req, 38 + (invoke handler req).length ≤ 2048) :
    ∃ t, (fitting F).LeadsIn 5 s t ∧ ∃ e older data effects req, t.log = e :: older ∧ e.node = n ∧
      .called (.received source data) effects ∈ e.effects ∧
      .settle corrId (.value (invoke handler req)) ∈ effects ∧ req.topic = service ∧
      req.payload = payload ∧ req.sourceId = (F.agent n).nodeId ∧ req.correlationId = corrId := by
  have hne : m ≠ n := by
    rintro rfl
    exact hother rfl
  obtain ⟨t₁, hleads₁, hnodes₁, hsent₁⟩ := announce_step h hannouncing
  have hreach₁ := h.leads hleads₁.leads
  obtain ⟨t₂, hleads₂, hnodes₂, hrunning₂, hhandlers₂, peer, rest, hpeer, htopics, heps⟩ :=
    hear_step hreach₁ hdomain hother (by rw [hnodes₁]; exact hsize) hsent₁
      (by rw [hnodes₁]; exact hrequester) howner
  have hreach₂ := hreach₁.leads hleads₂.leads
  -- The requester knows the service and does not serve it itself.
  have hknown : MessageBus.svcPrefix ++ service ∈ peer.subscribedTopics := by
    rw [htopics, hnodes₁]
    exact List.mem_map.mpr ⟨_, hlisted, List.take_of_length_le (by omega)⟩
  have hremote₂ : (t₂.nodes n).bus.serviceHandlers.lookup service = none := by
    rw [hhandlers₂, hnodes₁, hremote]
  obtain ⟨t₃, hleads₃, hnodes₃, hrunning₃, hpending, a, stamp, hsent₃, htype, htopic, rfl, rfl,
    hid, rfl⟩ := @request_step _ _ _ _ hreach₂ n hrunning₂ service payload qos corrId
      timeoutOverride hremote₂ _ _ hpeer hknown _ _ heps hudp
  have hsame : t₃.nodes m = s.nodes m := by
    rw [hnodes₃ m hne, hnodes₂ m hne, hnodes₁]
  have henc : Encodable a := by
    refine ⟨?_, ?_⟩
    · change a.topic.length ≤ 65535
      rw [htopic]
      omega
    · change a.payload.length ≤ 67108864
      omega
  obtain ⟨t₄, hleads₄, hnodes₄, b, stamp', req, hsent₄, htype', htopic', hpayload, hlevel', hcorr,
    hservice, hbody, hfrom', hcorr'⟩ := serve_step hsent₃ howner (.inl hfrom)
      (by rw [hsame]; exact hreplier) henc htype hlevel htopic (by rw [hsame]; exact hhandler)
      (by rw [hsame, hid]; exact hfresh) invoke
  have henc' : Encodable b := by
    refine ⟨?_, ?_⟩
    · rw [htopic']
      exact Nat.zero_le _
    · change b.payload.length ≤ 67108864
      have := hreply req
      rw [hpayload]
      omega
  obtain ⟨t₅, hleads₅, e, effects, hlog, hnode, hcalled, hsettle⟩ := settle_step hsent₄ hfrom
    (.inl howner) (by rw [hnodes₄ n hne.symm]; exact hrunning₃) henc' htype'
    (by rw [hlevel']; exact hlevel) (by rw [hnodes₄ n hne.symm, hcorr]; exact hpending)
  rw [hpayload, hcorr] at hsettle
  exact ⟨t₅, (((hleads₁.trans hleads₂).trans hleads₃).trans hleads₄).trans hleads₅, e, _, _,
    effects, req, hlog, hnode, hcalled, hsettle, hservice, hbody, hfrom'.trans hid, hcorr'⟩

end Network

namespace Party

/-- A handler that returns the first byte of the request. -/
def echo (_ : Nat) (req : ReceivedMessage) : Bytes := req.payload.take 1

/-- The receiver offers a service. -/
def offering : Network Party := (Network.fitting fleet).exec origin
  [step receiver 0 .init, step receiver 0 (.createReplier [0x73] 7), step sender 0 .init]

theorem offering_reachable : (Network.fitting fleet).Reachable offering := by
  refine TransitionSystem.Reachable.exec (.init ⟨rfl, rfl⟩) ⟨?_, ?_, ?_, trivial⟩
  all_goals exact enabled_of_quiet rfl (by rintro _ _ ⟨⟩) (by rintro _ _ _ _ ⟨⟩)

end Party

open Party

theorem Network.answerable_offering : ∃ t, (fitting fleet).LeadsIn 5 offering t ∧
    ∃ e older data effects, t.log = e :: older ∧ e.node = sender ∧
      .called (.received (endpoint receiver) data) effects ∈ e.effects ∧
      .settle 1 (.value [42]) ∈ effects := by
  have hreply : ∀ req, 38 + (echo 7 req).length ≤ 2048 := by
    intro req
    have hlength : (echo 7 req).length ≤ 1 := List.length_take_le 1 req.payload
    omega
  obtain ⟨t, hleads, e, older, data, effects, req, hlog, hnode, hcalled, hsettle, -, hpayload, -⟩ :=
    @answerable _ _ fleet _ offering_reachable sender receiver rfl rfl rfl rfl (by decide)
      (endpoint receiver) (endpoint sender) rfl rfl rfl (by decide) [0x73] [42] {} 1 0 7 rfl
      (by decide) rfl rfl (by decide) (by decide) echo hreply
  rw [echo, hpayload] at hsettle
  exact ⟨t, hleads, e, older, data, effects, hlog, hnode, hcalled, hsettle⟩

end EmbedMq
