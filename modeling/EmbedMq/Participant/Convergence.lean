import EmbedMq.Participant.Records

/-!
# Discovery converges

Announcements carry no number, so a late one undoes a newer one. But each says all that there is
to say of its sender. So the first announcement that is up to date makes good whatever a node
believed of the sender before, and as long as the node hears nothing older, the routing table
stays true.
-/

namespace EmbedMq

open MessageCodec (decode encode Encodable)

/-- What the registry knows of a peer, the routing table knows. -/
theorem Directory.Agrees.exists_iff {rec : Option PeerRecord} {peer : Option PeerInfo}
    (h : Agrees rec peer) {P : List Bytes → List Endpoint → Prop} :
    (∃ r, rec = some r ∧ P r.info.subscribedTopics r.info.endpoints) ↔
      ∃ p, peer = some p ∧ P p.subscribedTopics p.endpoints := by
  cases rec with
  | none =>
      cases peer with
      | none => constructor <;> rintro ⟨_, ⟨⟩, _⟩
      | some p => cases h
  | some r =>
      cases peer with
      | none => cases h
      | some p =>
          obtain ⟨htopics, hendpoints⟩ := h
          constructor
          · rintro ⟨_, ⟨⟩, hP⟩
            exact ⟨p, rfl, by rw [htopics, hendpoints]; exact hP⟩
          · rintro ⟨_, ⟨⟩, hP⟩
            exact ⟨r, rfl, by rw [← htopics, ← hendpoints]; exact hP⟩

theorem DiscoveryAgent.encodable_announce {agent : DiscoveryAgent} {topics : List Bytes}
    {eps : List Endpoint} (hsize : agent.announceSize topics eps ≤ 2048) :
    Encodable (agent.frameArgs .announce (agent.buildAnnouncePayload topics eps)) := by
  rw [announceSize_eq] at hsize
  refine ⟨Nat.zero_le _, ?_⟩
  change (agent.buildAnnouncePayload topics eps).length ≤ 67108864
  omega

theorem DiscoveryAgent.announceFrame_ne_farewellFrame {agent other : DiscoveryAgent}
    {topics : List Bytes} {eps : List Endpoint} (hsize : agent.announceSize topics eps ≤ 2048) :
    agent.announceFrame topics eps ≠ other.farewellFrame := by
  intro h
  have htype := Network.encode_type (encodable_announce hsize) 0
  have htype' := Network.encode_type (frameArgs_encodable other .farewell) 0
  rw [← announceFrame, h, farewellFrame, htype'] at htype
  cases htype

/-- A frame tells who has sent it. -/
theorem DiscoveryAgent.announceFrame_nodeId {agent other : DiscoveryAgent}
    {topics topics' : List Bytes} {eps eps' : List Endpoint}
    (hsize : agent.announceSize topics eps ≤ 2048)
    (h : agent.announceFrame topics eps = other.announceFrame topics' eps') :
    agent.nodeId = other.nodeId := by
  have henc := encodable_announce hsize
  have hvalid : (decode .bits64 (agent.announceFrame topics eps)).valid = true := by
    rw [announceFrame, MessageCodec.decode_encode henc]
  rw [h, announceFrame] at hvalid
  have hsource := MessageCodec.decode_encode henc 0 .bits64
  have hsource' := MessageCodec.decode_encode (MessageCodec.encodable_of_valid hvalid) 0 .bits64
  rw [← announceFrame] at hsource hsource'
  rw [h, hsource'] at hsource
  exact (congrArg (fun r => r.header.sourceId) hsource).symm

theorem PeerCallback.foldl_serviceHandlers (env : Env) (callbacks : List PeerCallback)
    (bus : MessageBus) :
    (callbacks.foldl (fun bus cb => cb.run env bus) bus).serviceHandlers = bus.serviceHandlers := by
  induction callbacks generalizing bus with
  | nil => rfl
  | cons cb rest ih =>
      rw [List.foldl_cons, ih]
      cases cb with
      | will peer =>
          obtain ⟨_, h⟩ := MessageBus.deliverWill_shape env bus peer.willTopic peer.willPayload
            peer.willRetain peer.id
          change (bus.deliverWill env _ _ _ _).1.serviceHandlers = _
          rw [h]
      | _ => rfl

namespace Participant

theorem admitted_encode {a : MessageCodec.EncodeArgs} (henc : Encodable a) (stamp : UInt64) :
    Admitted (encode a stamp) := by
  have hlength := MessageCodec.encode_length henc stamp
  refine ⟨?_, ?_⟩
  · rw [hlength]
    change 26 ≤ _
    omega
  · rw [MessageCodec.encode_eq, if_pos henc]
    exact ⟨rfl, rfl, rfl⟩

variable {env : Env} {p : Participant} {source : Endpoint} {a : MessageCodec.EncodeArgs}

theorem onDiscoveryMessage_of_some {data : Bytes} {call : PeerRegistry.Call}
    (h : p.agent.onDiscoveryMessage source data = some call) :
    onDiscoveryMessage env source data p = callRegistry env call p := by
  rw [onDiscoveryMessage, h]

/-- A frame for the discovery agent. -/
theorem recvCallback_discovery (henc : Encodable a) (stamp : UInt64)
    (htype : DiscoveryAgent.isDiscovery a.type = true) :
    recvCallback env source (encode a stamp) p =
      onDiscoveryMessage env source (encode a stamp) p := by
  rw [recvCallback, if_pos (admitted_encode henc stamp),
    if_pos (by rw [Network.encode_type henc]; exact htype)]

theorem callRegistry_localTopics (call : PeerRegistry.Call) :
    (callRegistry env call p).1.bus.localTopics = p.bus.localTopics := by
  rw [callRegistry_eq]
  exact PeerCallback.foldl_localTopics env _ p.bus

end Participant

namespace Network

variable {ι : Type} {F : Fleet ι} {s : Network ι}

/-- What a node would announce now. -/
def presentFrame (F : Fleet ι) (s : Network ι) (m : ι) : Bytes :=
  (F.agent m).announceFrame (s.nodes m).bus.localTopics (s.nodes m).endpoints

/-- These are the present topics of a node, and its endpoints as a receiver resolves them. -/
def UpToDate (F : Fleet ι) (s : Network ι) (m : ι) (topics : List Bytes) (eps : List Endpoint) :
    Prop :=
  ∃ source, (F.owner source = some m ∨ F.owner source = none) ∧
    topics = ((s.nodes m).bus.localTopics.take 255).map (List.take 0xFFFF) ∧
    eps = ((F.agent m).heardFrom (s.nodes m).bus.localTopics (s.nodes m).endpoints
      source).endpoints

/-- The routing table of a node has the truth about a peer. -/
def Knows (F : Fleet ι) (s : Network ι) (n m : ι) : Prop :=
  ∃ peer, (s.nodes n).bus.peers.lookup (F.agent m).nodeId = some peer ∧
    UpToDate F s m peer.subscribedTopics peer.endpoints

/-- The peer changes nothing that it announces, and what the node hears of it is not out of date,
and comes often enough. -/
structure Undisturbed (F : Fleet ι) (n m : ι) (s : Network ι) (l : Label ι) : Prop where
  same : l.node = m →
    (Participant.exec l.env l.call (s.nodes m)).1.bus.localTopics = (s.nodes m).bus.localTopics ∧
      (Participant.exec l.env l.call (s.nodes m)).1.endpoints = (s.nodes m).endpoints
  present : l.node = n → ∀ source data, l.call = .received source data →
    data ≠ (F.agent m).farewellFrame ∧
      ∀ topics eps, data = (F.agent m).announceFrame topics eps → data = presentFrame F s m
  heard : l.node = n → l.call = .timeoutTimer → ∀ rec,
    (s.nodes n).registry.records.lookup (F.agent m).nodeId = some rec →
      ¬ PeerRegistry.Silent l.env.now (F.config n).peerTimeoutMs rec.lastSeen

variable [DecidableEq ι] {n m : ι} {l : Label ι}

theorem Undisturbed.announces (h : Undisturbed F n m s l) :
    ((s.step l).nodes m).bus.localTopics = (s.nodes m).bus.localTopics ∧
      ((s.step l).nodes m).endpoints = (s.nodes m).endpoints := by
  obtain ⟨rfl, hnode⟩ | ⟨-, hnode⟩ := step_node_cases (s := s) l m
  · rw [hnode]
    exact h.same rfl
  · rw [hnode]
    exact ⟨rfl, rfl⟩

theorem Undisturbed.upToDate (h : Undisturbed F n m s l) :
    UpToDate F (s.step l) m = UpToDate F s m := by
  funext topics eps
  rw [UpToDate, UpToDate, h.announces.1, h.announces.2]

theorem Undisturbed.presentFrame (h : Undisturbed F n m s l) :
    presentFrame F (s.step l) m = presentFrame F s m := by
  rw [Network.presentFrame, Network.presentFrame, h.announces.1, h.announces.2]

/-- The registry has the truth about a peer. -/
theorem knows_iff (h : (system F).Reachable s) : Knows F s n m ↔
    ∃ rec, (s.nodes n).registry.records.lookup (F.agent m).nodeId = some rec ∧
      UpToDate F s m rec.info.subscribedTopics rec.info.endpoints :=
  ((inv_of_reachable h n).mirrors _).exists_iff.symm

/-- What a step of such a run does to the record of the peer. -/
theorem record_step (h : (fitting F).Reachable s) (henabled : (fitting F).enabled s l)
    (hcalm : Undisturbed F n m s l)
    (hunique : ∀ k, (F.agent k).nodeId = (F.agent m).nodeId → k = m) :
    ((s.step l).nodes n).registry.records.lookup (F.agent m).nodeId =
        (s.nodes n).registry.records.lookup (F.agent m).nodeId ∨
      ∃ rec, ((s.step l).nodes n).registry.records.lookup (F.agent m).nodeId = some rec ∧
        UpToDate F s m rec.info.subscribedTopics rec.info.endpoints := by
  obtain ⟨rfl, hnode⟩ | ⟨-, hnode⟩ := step_node_cases (s := s) l n
  · obtain ⟨registryCall, hasks, hexec⟩ | hquiet :=
      Participant.exec_cases l.env l.call (s.nodes l.node)
    · have hkeyed := (inv_of_reachable h.of_restrict l.node).keyed
      obtain ⟨hagent, hconfig⟩ := reachable_node h.of_restrict l.node
      rw [hnode, hexec, Participant.callRegistry_eq,
        (PeerRegistry.perform_onPeer hkeyed l.env.now registryCall (F.agent m).nodeId).1]
      generalize hstep : l.call = call at hasks
      cases hasks with
      | timeout =>
          refine .inl (congrArg Prod.fst (if_neg ?_))
          rw [hconfig, Option.any_eq_true]
          rintro ⟨rec, hrec, hsilent⟩
          exact hcalm.heard rfl hstep rec hrec (of_decide_eq_true hsilent)
      | @received source data _ heard =>
          rw [hagent] at heard
          have hpresent := hcalm.present rfl source data hstep
          cases discovery_heard h (henabled.1.2 _ _ hstep) heard with
          | @announced k topics eps hdomain hother hannounced howner =>
              simp only [PeerRegistry.onPeer, DiscoveryAgent.heardFrom_id]
              split
              · rename_i hid
                obtain rfl := hunique k hid
                have hsame := hpresent.2 topics eps rfl
                rw [hsame] at heard
                obtain ⟨-, -, hcall⟩ := DiscoveryAgent.onDiscoveryMessage_announced heard
                have hpeer := PeerRegistry.Call.addOrUpdate.inj hcall
                refine .inr ⟨_, rfl, source, howner, ?_, ?_⟩
                · rw [hpeer, DiscoveryAgent.heardFrom_subscribedTopics]
                · rw [hpeer]
              · exact .inl rfl
          | @farewell k =>
              refine .inl (congrArg Prod.fst (if_neg fun hid => hpresent.1 ?_))
              rw [hunique k hid]
    · rw [hnode, hquiet.registry]
      exact .inl rfl
  · rw [hnode]
    exact .inl rfl

/-- The routing table stays true. -/
theorem Knows.step (hknows : Knows F s n m) (h : (fitting F).Reachable s)
    (henabled : (fitting F).enabled s l) (hcalm : Undisturbed F n m s l)
    (hunique : ∀ k, (F.agent k).nodeId = (F.agent m).nodeId → k = m) :
    Knows F (s.step l) n m := by
  have hafter : (system F).Reachable (s.step l) := .step h.of_restrict henabled.1
  rw [knows_iff hafter, hcalm.upToDate]
  obtain hold | hnew := record_step h henabled hcalm hunique
  · rw [hold]
    exact (knows_iff h.of_restrict).mp hknows
  · exact hnew

/-- What a node makes of an announcement. -/
theorem exec_announced (h : (system F).Reachable s) {topics : List Bytes} {eps : List Endpoint}
    (hdomain : (F.agent m).domainId = (F.agent n).domainId)
    (hother : (F.agent m).nodeId ≠ (F.agent n).nodeId)
    (hsize : (F.agent m).announceSize topics eps ≤ 2048) (env : Env) (source : Endpoint) :
    Participant.exec env (.received source ((F.agent m).announceFrame topics eps)) (s.nodes n) =
      Participant.callRegistry env (.addOrUpdate ((F.agent m).heardFrom topics eps source))
        (s.nodes n) := by
  have henc := DiscoveryAgent.encodable_announce hsize
  have hheard : (s.nodes n).agent.onDiscoveryMessage source
      ((F.agent m).announceFrame topics eps) =
        some (.addOrUpdate ((F.agent m).heardFrom topics eps source)) := by
    rw [(reachable_node h n).1]
    exact DiscoveryAgent.onDiscoveryMessage_record hdomain hother source henc
  change Participant.recvCallback env source (encode _ 0) (s.nodes n) = _
  rw [Participant.recvCallback_discovery henc 0 rfl]
  exact Participant.onDiscoveryMessage_of_some hheard

/-- Who hears the present announcement of a peer knows the truth about it. -/
theorem knows_of_heard (h : (fitting F).Reachable s) (henabled : (fitting F).enabled s l)
    (hcalm : Undisturbed F l.node m s l)
    (hdomain : (F.agent m).domainId = (F.agent l.node).domainId)
    (hother : (F.agent m).nodeId ≠ (F.agent l.node).nodeId)
    (hunique : ∀ k, (F.agent k).nodeId = (F.agent m).nodeId → k = m)
    (hsize : (F.agent m).announceSize (s.nodes m).bus.localTopics (s.nodes m).endpoints ≤ 2048)
    {source : Endpoint} (hheard : l.call = .received source (presentFrame F s m)) :
    Knows F (s.step l) l.node m := by
  have hafter : (system F).Reachable (s.step l) := .step h.of_restrict henabled.1
  have hexec := exec_announced h.of_restrict hdomain hother hsize l.env source
  have hcall : (F.agent l.node).onDiscoveryMessage source (presentFrame F s m) =
      some (.addOrUpdate ((F.agent m).heardFrom _ _ source)) :=
    DiscoveryAgent.onDiscoveryMessage_record hdomain hother source
      (DiscoveryAgent.encodable_announce hsize)
  obtain ⟨k, hid, howner⟩ := (discovery_heard h (henabled.1.2 _ _ hheard) hcall).sender rfl
  obtain rfl : k = m := hunique k (hid.symm.trans (DiscoveryAgent.heardFrom_id _ _))
  rw [knows_iff hafter, hcalm.upToDate]
  refine ⟨⟨(F.agent k).heardFrom (s.nodes k).bus.localTopics (s.nodes k).endpoints source,
    l.env.now⟩, ?_, source, howner, DiscoveryAgent.heardFrom_subscribedTopics _ _, rfl⟩
  have hkeyed := (inv_of_reachable h.of_restrict l.node).keyed
  rw [step_node_self, hheard, presentFrame, hexec, Participant.callRegistry_eq,
    (PeerRegistry.perform_onPeer hkeyed _ _ (F.agent k).nodeId).1, PeerRegistry.onPeer,
    if_pos (DiscoveryAgent.heardFrom_id _ _)]

/-- In a run in which a peer changes nothing that it announces, and in which a node hears of it
nothing that is out of date, often enough, the node has the truth about the peer once it has heard
its announcement, whatever it believed before, and keeps it. -/
theorem settles (h : (fitting F).Reachable s)
    (hdomain : (F.agent m).domainId = (F.agent n).domainId)
    (hother : (F.agent m).nodeId ≠ (F.agent n).nodeId)
    (hunique : ∀ k, (F.agent k).nodeId = (F.agent m).nodeId → k = m)
    (hsize : (F.agent m).announceSize (s.nodes m).bus.localTopics (s.nodes m).endpoints ≤ 2048)
    {labels : List (Label ι)}
    (hrun : ((fitting F).restrict (Undisturbed F n m)).Admits s labels)
    (hheard : Knows F s n m ∨ ∃ l ∈ labels, l.node = n ∧
      ∃ source, l.call = .received source (presentFrame F s m)) :
    Knows F ((fitting F).exec s labels) n m := by
  induction labels generalizing s with
  | nil =>
      obtain hknows | ⟨_, hmem, -⟩ := hheard
      · exact hknows
      · cases hmem
  | cons l rest ih =>
      obtain ⟨⟨henabled, hcalm⟩, hrest⟩ := hrun
      have hreach : (fitting F).Reachable (s.step l) := .step h henabled
      have hsize' : (F.agent m).announceSize ((s.step l).nodes m).bus.localTopics
          ((s.step l).nodes m).endpoints ≤ 2048 := by
        obtain ⟨htopics, hendpoints⟩ := hcalm.announces
        rw [htopics, hendpoints]
        exact hsize
      refine ih (s := s.step l) hreach hsize' hrest ?_
      rw [hcalm.presentFrame]
      obtain hknows | ⟨heard, hmem, rfl, source, hcall⟩ := hheard
      · exact .inl (hknows.step h henabled hcalm hunique)
      · obtain rfl | hlater := List.mem_cons.mp hmem
        · exact .inl (knows_of_heard h henabled hcalm hdomain hother hunique hsize hcall)
        · exact .inr ⟨heard, hlater, rfl, source, hcall⟩

/-! ### A round of announcements -/

/-- Only datagram sockets are used. -/
def datagrams : Env where
  now := 0
  sent _ := 0
  stamp _ := 0
  active type := type = MessageBus.udp
  invoke _ _ := []

/-- A node announces itself once more. -/
theorem announce_step (h : (fitting F).Reachable s) (hannouncing : (s.nodes m).announcing = true) :
    ∃ t, (fitting F).LeadsIn 1 s t ∧ t.nodes = s.nodes ∧ t.Broadcast m (presentFrame F t m) := by
  let l : Label ι := ⟨m, datagrams, .announceTimer⟩
  have hinv := inv_of_reachable h.of_restrict m
  have henabled : (fitting F).enabled s l :=
    ⟨⟨hannouncing, by rintro _ _ ⟨⟩⟩, by rintro _ _ _ _ ⟨⟩⟩
  have hsame : (s.step l).nodes = s.nodes := Function.update_eq_self _ _
  refine ⟨s.step l, .single henabled, hsame, _, .head _, rfl, ?_⟩
  rw [presentFrame, hsame, ← hinv.topics (.inl (hinv.announcing hannouncing)),
    ← (reachable_node h.of_restrict m).1]
  exact .head _

/-- A node hears the present announcement of another one. -/
def hearing (F : Fleet ι) (s : Network ι) (n m : ι) (source : Endpoint) : Label ι :=
  ⟨n, datagrams, .received source (presentFrame F s m)⟩

/-- What stays of a node while announcements are made and heard. -/
structure Alike (p q : Participant) : Prop where
  running : p.running = q.running
  announcing : p.announcing = q.announcing
  localTopics : p.bus.localTopics = q.bus.localTopics
  endpoints : p.endpoints = q.endpoints

theorem Alike.refl (p : Participant) : Alike p p := ⟨rfl, rfl, rfl, rfl⟩

theorem Alike.trans {p q r : Participant} (h : Alike p q) (h' : Alike q r) : Alike p r where
  running := h.running.trans h'.running
  announcing := h.announcing.trans h'.announcing
  localTopics := h.localTopics.trans h'.localTopics
  endpoints := h.endpoints.trans h'.endpoints

section Hearing

variable (h : (fitting F).Reachable s) (hdomain : (F.agent m).domainId = (F.agent n).domainId)
  (hother : (F.agent m).nodeId ≠ (F.agent n).nodeId)
  (hsize : (F.agent m).announceSize (s.nodes m).bus.localTopics (s.nodes m).endpoints ≤ 2048)
  {source : Endpoint}

theorem hearing_enabled (hsent : s.Broadcast m (presentFrame F s m))
    (hrunning : (s.nodes n).running = true) (howner : F.owner source = some m) :
    (fitting F).enabled s (hearing F s n m source) := by
  refine ⟨⟨hrunning, ?_⟩, by rintro _ _ _ _ ⟨⟩⟩
  rintro _ _ ⟨⟩
  exact ⟨m, _, .inr hsent, .inl rfl, .inl howner⟩

include h hdomain hother hsize

theorem hearing_node : (s.step (hearing F s n m source)).nodes n =
    (Participant.callRegistry datagrams (.addOrUpdate ((F.agent m).heardFrom
      (s.nodes m).bus.localTopics (s.nodes m).endpoints source)) (s.nodes n)).1 :=
  (step_node_self _).trans
    (congrArg Prod.fst (exec_announced h.of_restrict hdomain hother hsize datagrams source))

/-- It disturbs no pair of nodes. -/
theorem hearing_undisturbed (hunique : ∀ k, (F.agent k).nodeId = (F.agent m).nodeId → k = m)
    (n' m' : ι) : Undisturbed F n' m' s (hearing F s n m source) where
  same hnode := by
    subst hnode
    have hexec := exec_announced h.of_restrict hdomain hother hsize datagrams source
    change (Participant.exec datagrams (.received source _) (s.nodes n)).1.bus.localTopics = _ ∧
      (Participant.exec datagrams (.received source _) (s.nodes n)).1.endpoints = _
    rw [presentFrame, hexec, Participant.callRegistry_localTopics, Participant.callRegistry_eq]
    exact ⟨rfl, rfl⟩
  present hnode source' data hcall := by
    obtain ⟨-, rfl⟩ := Participant.Call.received.inj hcall
    refine ⟨DiscoveryAgent.announceFrame_ne_farewellFrame hsize, fun topics eps hsame => ?_⟩
    rw [hunique m' (DiscoveryAgent.announceFrame_nodeId hsize hsame).symm]
  heard _ hcall := by cases hcall

/-- What the node knows then, and what stays. -/
theorem hear_step (hsent : s.Broadcast m (presentFrame F s m))
    (hrunning : (s.nodes n).running = true) (howner : F.owner source = some m) :
    ∃ t, (fitting F).LeadsIn 1 s t ∧ (∀ k, k ≠ n → t.nodes k = s.nodes k) ∧
      (t.nodes n).running = true ∧
      (t.nodes n).bus.serviceHandlers = (s.nodes n).bus.serviceHandlers ∧ ∃ peer rest,
        (t.nodes n).bus.peers.lookup (F.agent m).nodeId = some peer ∧
        peer.subscribedTopics = ((s.nodes m).bus.localTopics.take 255).map (List.take 0xFFFF) ∧
        peer.endpoints = source :: rest := by
  have hnode : (s.step (hearing F s n m source)).nodes n = _ :=
    hearing_node h hdomain hother hsize
  have hinv := inv_of_reachable h.of_restrict n
  have hafter : ((s.step (hearing F s n m source)).nodes n).Inv := by
    rw [hnode]
    exact hinv.callRegistry _
  refine ⟨_, .single (hearing_enabled hsent hrunning howner),
    fun k hk => step_node_ne (hearing F s n m source) hk, ?_, ?_, ?_⟩
  · change ((s.step (hearing F s n m source)).nodes n).running = true
    rw [hnode, Participant.callRegistry_eq]
    exact hrunning
  · change ((s.step (hearing F s n m source)).nodes n).bus.serviceHandlers = _
    rw [hnode, Participant.callRegistry_eq]
    exact PeerCallback.foldl_serviceHandlers datagrams _ _
  · have hrecord : ((s.step (hearing F s n m source)).nodes n).registry.records.lookup
        (F.agent m).nodeId = some ⟨(F.agent m).heardFrom (s.nodes m).bus.localTopics
          (s.nodes m).endpoints source, 0⟩ := by
      rw [hnode, Participant.callRegistry_eq,
        (PeerRegistry.perform_onPeer hinv.keyed _ _ (F.agent m).nodeId).1, PeerRegistry.onPeer,
        if_pos (DiscoveryAgent.heardFrom_id _ _)]
      rfl
    obtain ⟨peer, hpeer, htopics, hendpoints⟩ := (hafter.mirrors _).exists_iff
      (P := fun topics eps => topics = ((s.nodes m).bus.localTopics.take 255).map
        (List.take 0xFFFF) ∧ ∃ rest, eps = source :: rest) |>.mp
        ⟨_, hrecord, DiscoveryAgent.heardFrom_subscribedTopics _ _, _, rfl⟩
    obtain ⟨rest, hendpoints⟩ := hendpoints
    exact ⟨peer, rest, hpeer, htopics, hendpoints⟩

/-- A node stays as it is, but for what it knows. -/
theorem hearing_alike (k : ι) :
    Alike ((s.step (hearing F s n m source)).nodes k) (s.nodes k) := by
  obtain ⟨hk, -⟩ | ⟨-, hnode⟩ := step_node_cases (s := s) (hearing F s n m source) k
  · have hk : k = n := hk
    rw [hk, hearing_node h hdomain hother hsize]
    refine ⟨?_, ?_, Participant.callRegistry_localTopics _, ?_⟩
    all_goals rw [Participant.callRegistry_eq]
  · rw [hnode]
    exact .refl _

end Hearing

/-- A node can get the announcement of another one. -/
structure CanHear (F : Fleet ι) (s : Network ι) (n m : ι) : Prop where
  running : (s.nodes n).running = true
  announcing : (s.nodes m).announcing = true
  domain : (F.agent m).domainId = (F.agent n).domainId
  other : (F.agent m).nodeId ≠ (F.agent n).nodeId
  unique : ∀ k, (F.agent k).nodeId = (F.agent m).nodeId → k = m
  owned : ∃ source, F.owner source = some m
  size : (F.agent m).announceSize (s.nodes m).bus.localTopics (s.nodes m).endpoints ≤ 2048

omit [DecidableEq ι] in
theorem CanHear.alike {t : Network ι} (h : CanHear F s n m)
    (halike : ∀ k, Alike (t.nodes k) (s.nodes k)) : CanHear F t n m where
  running := (halike n).running.trans h.running
  announcing := (halike m).announcing.trans h.announcing
  domain := h.domain
  other := h.other
  unique := h.unique
  owned := h.owned
  size := by
    rw [(halike m).localTopics, (halike m).endpoints]
    exact h.size

/-- One more node is brought up to date about one more peer. -/
theorem inform_step (h : (fitting F).Reachable s) (hcan : CanHear F s n m) :
    ∃ t, (fitting F).Leads s t ∧ (∀ k, Alike (t.nodes k) (s.nodes k)) ∧ Knows F t n m ∧
      ∀ n' m', (∀ k, (F.agent k).nodeId = (F.agent m').nodeId → k = m') → Knows F s n' m' →
        Knows F t n' m' := by
  obtain ⟨source, howner⟩ := hcan.owned
  obtain ⟨u, hstep, hnodes, hsent⟩ := announce_step h hcan.announcing
  have hleads := hstep.leads
  have hreach := h.leads hleads
  have hcan : CanHear F u n m := hcan.alike fun k => by rw [hnodes]; exact .refl _
  have henabled := hearing_enabled hsent hcan.running howner
  have hcalm : ∀ n' m', Undisturbed F n' m' u (hearing F u n m source) :=
    hearing_undisturbed hreach hcan.domain hcan.other hcan.size hcan.unique
  refine ⟨u.step (hearing F u n m source), hleads.trans (.head henabled (.refl _)), ?_, ?_, ?_⟩
  · intro k
    rw [← hnodes]
    exact hearing_alike hreach hcan.domain hcan.other hcan.size k
  · exact knows_of_heard hreach henabled (hcalm n m) hcan.domain hcan.other hcan.unique hcan.size
      rfl
  · intro n' m' hunique hknows
    have hknows : Knows F u n' m' := by
      simp only [Knows, UpToDate, hnodes]
      exact hknows
    exact hknows.step hreach henabled (hcalm n' m') hunique

/-- Announcements that are heard one after the other bring any nodes up to date. -/
theorem converges_pairs (h : (fitting F).Reachable s) {pairs : List (ι × ι)}
    (hcan : ∀ p ∈ pairs, CanHear F s p.1 p.2) :
    ∃ t, (fitting F).Leads s t ∧ (∀ k, Alike (t.nodes k) (s.nodes k)) ∧
      ∀ p ∈ pairs, Knows F t p.1 p.2 := by
  induction pairs with
  | nil => exact ⟨s, .refl s, fun _ => .refl _, by rintro _ ⟨⟩⟩
  | cons pair rest ih =>
      obtain ⟨t, hleads, halike, hknows⟩ := ih fun p hp => hcan p (.tail _ hp)
      obtain ⟨u, hleads', halike', hnew, hkept⟩ :=
        inform_step (h.leads hleads) ((hcan _ (.head _)).alike halike)
      refine ⟨u, hleads.trans hleads', fun k => (halike' k).trans (halike k), ?_⟩
      intro p hp
      obtain rfl | hp' := List.mem_cons.mp hp
      · exact hnew
      · exact hkept p.1 p.2 (hcan p hp).unique (hknows p hp')

/-- From every reachable state, the nodes of a domain can get to the truth about each other, in any
number: each announces itself and the others hear it. Their own subscriptions stay. -/
theorem converges (h : (fitting F).Reachable s) {nodes : List ι}
    (hcan : ∀ n ∈ nodes, ∀ m ∈ nodes, n ≠ m → CanHear F s n m) :
    ∃ t, (fitting F).Leads s t ∧
      (∀ k, (t.nodes k).bus.localTopics = (s.nodes k).bus.localTopics) ∧
      ∀ n ∈ nodes, ∀ m ∈ nodes, n ≠ m → Knows F t n m := by
  have hpairs : ∀ p ∈ (nodes.product nodes).filter fun p => p.1 ≠ p.2, CanHear F s p.1 p.2 := by
    intro p hp
    obtain ⟨hmem, hne⟩ := List.mem_filter.mp hp
    obtain ⟨hn, hm⟩ := List.pair_mem_product.mp hmem
    exact hcan _ hn _ hm (of_decide_eq_true hne)
  obtain ⟨t, hleads, halike, hknows⟩ := converges_pairs h hpairs
  refine ⟨t, hleads, fun k => (halike k).localTopics, fun n hn m hm hne => ?_⟩
  exact hknows (n, m) (List.mem_filter.mpr
    ⟨List.pair_mem_product.mpr ⟨hn, hm⟩, decide_eq_true hne⟩)

end Network

open Party

theorem Party.nodeId_unique (n m : Party) (h : (fleet.agent n).nodeId = (fleet.agent m).nodeId) :
    n = m := by
  cases n <;> cases m <;> first | rfl | exact absurd h (by decide)

theorem Party.canHear (n m : Party) (hne : n ≠ m) : Network.CanHear fleet subscribed n m where
  running := by cases n <;> rfl
  announcing := by cases m <;> rfl
  domain := rfl
  other hid := hne (nodeId_unique m n hid).symm
  unique k := nodeId_unique k m
  owned := ⟨endpoint m, by cases m <;> rfl⟩
  size := by cases m <;> decide

theorem Network.settles_subscribed : Knows fleet ((fitting fleet).exec subscribed
    [hearing fleet subscribed sender receiver (endpoint receiver)]) sender receiver := by
  have hcan := canHear sender receiver (by decide)
  exact settles subscribed_reachable hcan.domain hcan.other hcan.unique hcan.size
    ⟨⟨hearing_enabled subscribed_broadcast hcan.running rfl, hearing_undisturbed
      subscribed_reachable hcan.domain hcan.other hcan.size hcan.unique _ _⟩, trivial⟩
    (.inr ⟨_, .head _, rfl, _, rfl⟩)

theorem Network.converges_subscribed : ∃ t, (fitting fleet).Leads subscribed t ∧
    Knows fleet t sender receiver ∧ Knows fleet t receiver sender := by
  obtain ⟨t, hleads, -, hknows⟩ := @converges _ fleet _ _ subscribed_reachable [sender, receiver]
    fun n _ m _ hne => canHear n m hne
  exact ⟨t, hleads, hknows sender (by decide) receiver (by decide) (by decide),
    hknows receiver (by decide) sender (by decide) (by decide)⟩

end EmbedMq
