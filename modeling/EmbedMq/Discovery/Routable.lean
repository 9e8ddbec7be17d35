import EmbedMq.Discovery.Announce
import EmbedMq.Discovery.Staleness
import EmbedMq.Transport.Basic

/-!
# Announced topics that arrive

A node announces its topics in one datagram, and every peer of the domain should know
them afterwards. The number of topics is a byte, and the rest of a longer list is left
out. The datagram is cut off at the receive buffer of the peer, and what is left of it
is not a frame. So the topics arrive if there are at most 255 of them and the frame is
no longer than the buffer.
-/

namespace EmbedMq.DiscoveryAgent

open MessageCodec (decode bytes16 bytes32)

/-- `udpRecvBufferSize` of a default configuration. -/
def recvBufferSize : UInt32 := 2048

/-- The registry of a node after a datagram was sent to it. -/
def afterDatagram (agent : DiscoveryAgent) (now : Int) (source : Endpoint) (frame : Bytes)
    (reg : PeerRegistry) : PeerRegistry :=
  match (UdpTransport.send frame).2.bind (agent.processFd recvBufferSize source) with
  | some call => (PeerRegistry.run now call reg).state
  | none => reg

/-- The topics of a node are the ones that its record shows. -/
def Shows (reg : PeerRegistry) (id : UInt16) (topics : List Bytes) : Prop :=
  ∃ rec, reg.records.lookup id = some rec ∧ rec.info.subscribedTopics = topics

/-- The length of an ANNOUNCE frame: the header with its checksum, then the fields. -/
def announceSize (agent : DiscoveryAgent) (topics : List Bytes) (eps : List Endpoint) : Nat :=
  30 + (2 + 1 + 1) + (1 + min agent.nodeName.length 255) + (1 + min agent.hostName.length 255) +
    (1 + ((topics.take 255).map fun topic => 3 + min topic.length 65535).sum) +
    (1 + ((eps.take 255).map fun ep =>
      4 + min ep.transportType.length 255 + min ep.address.length 255).sum) +
    (if agent.hasWill then
      8 + min agent.lastWill.topic.length 65535 + agent.lastWill.payload.length
    else 0)

/-! ### Lengths -/

theorem putStr8_length (s : Bytes) : (putStr8 s).length = 1 + min s.length 255 := by
  simp only [putStr8, List.length_cons, List.length_take]
  omega

theorem putStr16_length (s : Bytes) : (putStr16 s).length = 2 + min s.length 65535 := by
  simp only [putStr16, List.length_append, MessageCodec.bytes16_length, List.length_take]
  omega

theorem putTopic_length (topic : Bytes) :
    (putTopic topic).length = 3 + min topic.length 65535 := by
  rw [putTopic, List.length_cons, putStr16_length]
  omega

theorem putEndpoint_length (ep : Endpoint) :
    (putEndpoint ep).length = 4 + min ep.transportType.length 255 + min ep.address.length 255 := by
  simp only [putEndpoint, List.length_append, putStr8_length, MessageCodec.bytes16_length]
  omega

theorem putWill_length (will : LastWill) :
    (putWill will).length = 8 + min will.topic.length 65535 + will.payload.length := by
  simp only [putWill, List.length_append, putStr16_length, MessageCodec.bytes32_length,
    List.length_cons, List.length_nil]
  omega

theorem take_min_length {α : Type} (xs : List α) (n : Nat) :
    xs.take (min xs.length n) = xs.take n := by
  rw [List.take_eq_take_iff]
  omega

variable {agent sender : DiscoveryAgent} {topics : List Bytes} {eps : List Endpoint}

theorem announceSize_eq (sender : DiscoveryAgent) (topics : List Bytes) (eps : List Endpoint) :
    sender.announceSize topics eps = 30 + (sender.buildAnnouncePayload topics eps).length := by
  have hwill : (if sender.hasWill then putWill sender.lastWill else []).length =
      if sender.hasWill then
        8 + min sender.lastWill.topic.length 65535 + sender.lastWill.payload.length
      else 0 := by
    split
    · exact putWill_length _
    · rfl
  have htopics : ∀ topics : List Bytes, (topics.flatMap putTopic).length =
      (topics.map fun topic => 3 + min topic.length 65535).sum := by
    intro topics
    rw [List.length_flatMap]
    simp only [putTopic_length]
  have heps : ∀ eps : List Endpoint, (eps.flatMap putEndpoint).length =
      (eps.map fun ep =>
        4 + min ep.transportType.length 255 + min ep.address.length 255).sum := by
    intro eps
    rw [List.length_flatMap]
    simp only [putEndpoint_length]
  simp only [announceSize, buildAnnouncePayload, List.length_append, hwill, htopics, heps,
    take_min_length, putStr8_length, MessageCodec.bytes16_length, List.length_cons,
    List.length_nil]
  omega

/-! ### One frame -/

theorem announceFrame_length
    (h : MessageCodec.Encodable
      (sender.frameArgs .announce (sender.buildAnnouncePayload topics eps))) :
    (sender.announceFrame topics eps).length = sender.announceSize topics eps := by
  rw [announceFrame, MessageCodec.encode_length h, announceSize_eq]
  rfl

theorem onDiscoveryMessage_record (hdomain : sender.domainId = agent.domainId)
    (hid : sender.nodeId ≠ agent.nodeId) (source : Endpoint)
    (henc : MessageCodec.Encodable
      (sender.frameArgs .announce (sender.buildAnnouncePayload topics eps))) :
    agent.onDiscoveryMessage source (sender.announceFrame topics eps) =
      some (.addOrUpdate { sender.record topics eps with
        endpoints := resolve source (sender.record topics eps).endpoints }) := by
  have hlength : (sender.buildAnnouncePayload topics eps).length < 2 ^ 32 :=
    Nat.lt_of_le_of_lt henc.2 (by decide)
  have hparsed := parseAnnouncePayload_append topics eps hdomain
    (willFits_of_length topics eps hlength) []
  rw [List.append_nil] at hparsed
  rw [onDiscoveryMessage, announceFrame, MessageCodec.decode_encode henc]
  have htype : MessageType.ofByte (MessageCodec.encodedHeader (sender.frameArgs .announce
      (sender.buildAnnouncePayload topics eps)) 0).msgType = .announce :=
    MessageCodec.encodedHeader_type _ _
  have hsource : (MessageCodec.encodedHeader (sender.frameArgs .announce
      (sender.buildAnnouncePayload topics eps)) 0).sourceId ≠ agent.nodeId := hid
  simp only [htype, if_neg hsource, Bool.not_true, Bool.false_eq_true, if_false]
  change Option.map _ (agent.parseAnnouncePayload (sender.buildAnnouncePayload topics eps)) = _
  rw [hparsed]
  rfl

/-- A frame that is not longer than the buffer reaches the registry. -/
theorem processFd_record (hdomain : sender.domainId = agent.domainId)
    (hid : sender.nodeId ≠ agent.nodeId) (source : Endpoint)
    (hsize : sender.announceSize topics eps ≤ 2048) :
    agent.processFd recvBufferSize source (sender.announceFrame topics eps) =
      some (.addOrUpdate { sender.record topics eps with
        endpoints := resolve source (sender.record topics eps).endpoints }) := by
  have henc : MessageCodec.Encodable
      (sender.frameArgs .announce (sender.buildAnnouncePayload topics eps)) := by
    rw [announceSize_eq] at hsize
    refine ⟨Nat.zero_le _, ?_⟩
    change (sender.buildAnnouncePayload topics eps).length ≤ 67108864
    omega
  have hwhole : (sender.announceFrame topics eps).take recvBufferSize.toNat =
      sender.announceFrame topics eps := by
    apply List.take_of_length_le
    rw [announceFrame_length henc]
    exact hsize
  rw [processFd_eq, hwhole, onDiscoveryMessage_record hdomain hid source henc]

/-- A frame that leads to a call was not cut off. -/
theorem announceSize_le_of_processFd {source : Endpoint} {call : PeerRegistry.Call}
    (h : agent.processFd recvBufferSize source (sender.announceFrame topics eps) = some call) :
    sender.announceSize topics eps ≤ 2048 := by
  rw [processFd_eq] at h
  have hvalid : (decode agent.sizeT
      ((sender.announceFrame topics eps).take recvBufferSize.toNat)).valid = true := by
    by_contra hinvalid
    rw [onDiscoveryMessage, if_pos (by simpa using hinvalid)] at h
    cases h
  have hwhole : (sender.announceFrame topics eps).take recvBufferSize.toNat =
      sender.announceFrame topics eps :=
    MessageCodec.take_encode_of_valid recvBufferSize.toNat_lt hvalid
  rw [hwhole] at hvalid
  rw [← announceFrame_length (MessageCodec.encodable_of_valid hvalid), ← hwhole]
  exact List.length_take_le _ _

/-! ### The registry -/

theorem announceFrame_lt (sender : DiscoveryAgent) (topics : List Bytes) (eps : List Endpoint) :
    (sender.announceFrame topics eps).length < 2 ^ 31 := by
  by_cases henc : MessageCodec.Encodable
      (sender.frameArgs .announce (sender.buildAnnouncePayload topics eps))
  · have hpayload : (sender.buildAnnouncePayload topics eps).length ≤ 67108864 := henc.2
    rw [announceFrame_length henc, announceSize_eq]
    omega
  · rw [announceFrame, MessageCodec.encode_eq, if_neg henc]
    decide

theorem datagram_eq {frame : Bytes} (h : frame.length < 2 ^ 31) :
    (UdpTransport.send frame).2 =
      if frame.length ≤ UdpTransport.maxDatagram then some frame else none := by
  have hsend : UdpTransport.send frame = _ := @UdpTransport.transmit_eq (.buffer frame) h
  rw [hsend, apply_ite Prod.snd]
  rfl

/-- A frame that leads to no call leaves the registry as it is. -/
theorem afterDatagram_none {now : Int} {source : Endpoint} {reg : PeerRegistry}
    (h : agent.processFd recvBufferSize source (sender.announceFrame topics eps) = none) :
    agent.afterDatagram now source (sender.announceFrame topics eps) reg = reg := by
  rw [afterDatagram, datagram_eq (announceFrame_lt sender topics eps)]
  by_cases hfits : (sender.announceFrame topics eps).length ≤ UdpTransport.maxDatagram
  · rw [if_pos hfits, Option.bind_some, h]
  · rw [if_neg hfits, Option.bind_none]

/-- A frame that is not too long makes the record of its sender. -/
theorem afterDatagram_record (hdomain : sender.domainId = agent.domainId)
    (hid : sender.nodeId ≠ agent.nodeId) (hsize : sender.announceSize topics eps ≤ 2048)
    (now : Int) (source : Endpoint) (reg : PeerRegistry) :
    Shows (agent.afterDatagram now source (sender.announceFrame topics eps) reg) sender.nodeId
      ((topics.take 255).map (List.take 0xFFFF)) := by
  have hprocess := processFd_record hdomain hid source hsize
  have hlength : (sender.announceFrame topics eps).length ≤ UdpTransport.maxDatagram := by
    by_cases henc : MessageCodec.Encodable
        (sender.frameArgs .announce (sender.buildAnnouncePayload topics eps))
    · rw [announceFrame_length henc]
      exact Nat.le_trans hsize (by decide)
    · rw [announceFrame, MessageCodec.encode_eq, if_neg henc]
      exact Nat.zero_le _
  rw [afterDatagram, datagram_eq (announceFrame_lt sender topics eps), if_pos hlength,
    Option.bind_some, hprocess]
  have hafter : ∀ peer : PeerInfo,
      (PeerRegistry.run now (.addOrUpdate peer) reg).state.records.lookup peer.id =
        some ⟨peer, now⟩ := by
    intro peer
    rw [PeerRegistry.run, PeerRegistry.enter, PeerRegistry.addOrUpdate]
    cases reg.records.lookup peer.id with
    | none => exact AList.lookup_insert _
    | some old => exact AList.lookup_insert _
  have hrecord := hafter { sender.record topics eps with
    endpoints := resolve source (sender.record topics eps).endpoints }
  rw [show sender.nodeId = (sender.record topics eps).id from (record_id topics eps).symm]
  exact ⟨_, hrecord, record_subscribedTopics topics eps⟩

theorem shows_unique {reg : PeerRegistry} {id : UInt16} {first second : List Bytes}
    (hfirst : Shows reg id first) (hsecond : Shows reg id second) : first = second := by
  obtain ⟨rec, hlookup, rfl⟩ := hfirst
  obtain ⟨rec', hlookup', rfl⟩ := hsecond
  rw [Option.some.inj (hlookup.symm.trans hlookup')]

/-- After an ANNOUNCE the record of its sender shows the announced topics, whatever the registry
was before, if and only if there are at most 255 topics, the frame is not longer than the receive
buffer, and the receiver does not take the frame for its own. -/
theorem shows_announced_iff (hdomain : sender.domainId = agent.domainId)
    (htopics : ∀ topic ∈ topics, topic.length ≤ 65535) :
    (∀ now source reg, Shows
        (agent.afterDatagram now source (sender.announceFrame topics eps) reg)
        sender.nodeId topics) ↔
      topics.length ≤ 255 ∧ sender.announceSize topics eps ≤ 2048 ∧
        sender.nodeId ≠ agent.nodeId := by
  have huncut : topics.map (List.take 0xFFFF) = topics := by
    refine (List.map_congr_left fun topic hmem => ?_).trans (List.map_id topics)
    exact List.take_of_length_le (htopics topic hmem)
  constructor
  · intro hshows
    have hcall : ∃ call,
        agent.processFd recvBufferSize { address := [], transportType := [] }
          (sender.announceFrame topics eps) = some call := by
      by_contra hnone
      have hdropped := Option.eq_none_iff_forall_ne_some.mpr fun call hcall => hnone ⟨call, hcall⟩
      have hempty := hshows 0 { address := [], transportType := [] } {}
      rw [afterDatagram_none hdropped] at hempty
      obtain ⟨rec, hlookup, _⟩ := hempty
      cases hlookup
    obtain ⟨call, hcall⟩ := hcall
    have hid := (processFd_announce hcall).1
    have hsize := announceSize_le_of_processFd hcall
    refine ⟨?_, hsize, hid⟩
    have hrecord :=
      afterDatagram_record hdomain hid hsize 0 { address := [], transportType := [] } {}
    have hlengths := congrArg List.length (shows_unique (hshows 0 _ {}) hrecord)
    rw [List.length_map, List.length_take] at hlengths
    omega
  · rintro ⟨hcount, hsize, hid⟩ now source reg
    have hrecord := afterDatagram_record hdomain hid hsize now source reg
    rwa [List.take_of_length_le hcount, huncut] at hrecord

/-- A node with this id. -/
def plain (nodeId : UInt16) : DiscoveryAgent where
  nodeId := nodeId
  nodeName := []
  hostName := []

theorem shows_announced_plain :
    Shows ((plain 1).afterDatagram 0 { address := [], transportType := [] }
      ((plain 2).announceFrame [[0x61], [0x62]] []) {}) (plain 2).nodeId [[0x61], [0x62]] := by
  have hid : (plain 2).nodeId ≠ (plain 1).nodeId := by decide
  have hsize : (plain 2).announceSize [[0x61], [0x62]] [] ≤ 2048 := by decide
  have htopics : ∀ topic ∈ [[(0x61 : UInt8)], [0x62]], topic.length ≤ 65535 := by decide
  have hshows := (@shows_announced_iff (plain 1) (plain 2) _ [] rfl htopics).mpr
    ⟨by decide, hsize, hid⟩
  exact hshows 0 _ {}

/-- Of 256 topics the last one is left out. -/
theorem not_shows_announced :
    ¬ ∀ (agent sender : DiscoveryAgent) (topics : List Bytes) (eps : List Endpoint),
      sender.domainId = agent.domainId → sender.nodeId ≠ agent.nodeId →
      (∀ topic ∈ topics, topic.length ≤ 65535) → ∀ now source reg,
        Shows (agent.afterDatagram now source (sender.announceFrame topics eps) reg)
          sender.nodeId topics := by
  intro hclaim
  have hid : (plain 2).nodeId ≠ (plain 1).nodeId := by decide
  have htopics : ∀ topic ∈ List.replicate 256 [(0x61 : UInt8)], topic.length ≤ 65535 := by
    intro topic hmem
    rw [List.eq_of_mem_replicate hmem]
    decide
  have hsize : (plain 2).announceSize (List.replicate 256 [0x61]) [] ≤ 2048 := by
    rw [announceSize, List.take_replicate, List.map_replicate, List.sum_replicate]
    decide
  have hshows := hclaim (plain 1) (plain 2) _ [] rfl hid htopics 0
    { address := [], transportType := [] } {}
  have hrecord := @afterDatagram_record (plain 1) (plain 2) _ [] rfl hid hsize 0
    { address := [], transportType := [] } {}
  have hlengths := congrArg List.length (shows_unique hshows hrecord)
  rw [List.length_map, List.length_take, List.length_replicate] at hlengths
  exact absurd hlengths (by decide)

end EmbedMq.DiscoveryAgent
