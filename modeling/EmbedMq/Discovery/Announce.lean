import EmbedMq.Discovery.PeerRegistry
import EmbedMq.Discovery.Reader

/-!
# Discovery frames

What a discovery agent sends and what it makes of a received frame, following
`discovery_agent.cpp`. The payload of an ANNOUNCE is a sequence of fields without
padding, which the parser reads through a cursor.

A received frame leads to at most one call of the registry, so `onDiscoveryMessage`
returns that call.
-/

namespace EmbedMq

/-- The message that the others publish when the node is lost. -/
structure LastWill where
  topic : Bytes := []
  payload : Bytes := []
  qos : QoSLevel := .reliable
  retain : Bool := true
  enabled : Bool := false

/-- What a discovery agent knows from its construction on. -/
structure DiscoveryAgent where
  nodeId : UInt16
  nodeName : Bytes
  /-- `platform::getHostName()`. -/
  hostName : Bytes
  domainId : UInt8 := 0
  enableLocalDiscovery : Bool := true
  lastWill : LastWill := {}
  /-- The width of `size_t` on the platform of the node. -/
  sizeT : SizeT := .bits64

namespace DiscoveryAgent

open MessageCodec (EncodeArgs encode decode bytes16 bytes32)

/-! ### Sending -/

def roleSub : UInt8 := 0x02

/-- A string of at most 255 bytes behind its length. -/
def putStr8 (s : Bytes) : Bytes :=
  let n := min s.length 0xFF
  UInt8.ofNat n :: s.take n

/-- A string of at most 65535 bytes behind its length. -/
def putStr16 (s : Bytes) : Bytes :=
  let n := min s.length 0xFFFF
  bytes16 (UInt16.ofNat n) ++ s.take n

def hasWill (agent : DiscoveryAgent) : Bool :=
  agent.lastWill.enabled && !agent.lastWill.topic.isEmpty

def putTopic (topic : Bytes) : Bytes := roleSub :: putStr16 topic

def putEndpoint (ep : Endpoint) : Bytes :=
  putStr8 ep.transportType ++ putStr8 ep.address ++ bytes16 ep.port

def putWill (will : LastWill) : Bytes :=
  [will.qos.toByte, if will.retain then 1 else 0] ++ putStr16 will.topic ++
    bytes32 (UInt32.ofNat will.payload.length) ++ will.payload

/-- The payload for the topics and the endpoints that the agent finds. -/
def buildAnnouncePayload (agent : DiscoveryAgent) (topics : List Bytes) (eps : List Endpoint) :
    Bytes :=
  let topicCount := min topics.length 255
  let epCount := min eps.length 255
  bytes16 agent.nodeId ++ [agent.domainId] ++ [if agent.hasWill then 0x01 else 0x00] ++
    putStr8 agent.nodeName ++ putStr8 agent.hostName ++
    [UInt8.ofNat topicCount] ++ (topics.take topicCount).flatMap putTopic ++
    [UInt8.ofNat epCount] ++ (eps.take epCount).flatMap putEndpoint ++
    (if agent.hasWill then putWill agent.lastWill else [])

/-- A frame to every node. -/
def frameArgs (agent : DiscoveryAgent) (type : MessageType) (payload : Bytes) : EncodeArgs where
  type := type
  sourceId := agent.nodeId
  destId := 0xFFFF
  topic := []
  payload := payload
  qos := {}
  sequenceId := 0

/-- The frame of `sendAnnounce`. A discovery frame has no timestamp, so the clock is not read. -/
def announceFrame (agent : DiscoveryAgent) (topics : List Bytes) (eps : List Endpoint) : Bytes :=
  encode (agent.frameArgs .announce (agent.buildAnnouncePayload topics eps)) 0

/-- The frame of `sendFarewell`. -/
def farewellFrame (agent : DiscoveryAgent) : Bytes := encode (agent.frameArgs .farewell []) 0

/-- The frame of `sendHeartbeat`. -/
def heartbeatFrame (agent : DiscoveryAgent) : Bytes := encode (agent.frameArgs .heartbeat []) 0

/-! ### Parsing -/

open Reader

/-- The topics, as long as the cursor is good. -/
def parseTopics : Nat → PeerInfo → Parser PeerInfo
  | 0, out => return out
  | count + 1, out => do
    if !(← isOk) then return out
    let role ← u8
    let topic ← str16
    if !(← isOk) then return out
    if role = roleSub then
      parseTopics count { out with subscribedTopics := out.subscribedTopics ++ [topic] }
    else
      parseTopics count { out with publishedTopics := out.publishedTopics ++ [topic] }

/-- The endpoints, as long as the cursor is good. -/
def parseEndpoints : Nat → PeerInfo → Parser PeerInfo
  | 0, out => return out
  | count + 1, out => do
    if !(← isOk) then return out
    let transportType ← str8
    let address ← str8
    let port ← u16
    if ← isOk then
      parseEndpoints count
        { out with endpoints := out.endpoints ++ [{ address, port, transportType }] }
    else parseEndpoints count out

def parseWill (out : PeerInfo) : Parser PeerInfo := do
  let q ← u8
  let ret ← u8
  let wt ← str16
  let plen ← u32
  if !(← isOk) then return out
  match ← peek plen.toNat with
  | some payload =>
      return { out with
        willQos := q, willRetain := decide (ret ≠ 0), willTopic := wt, willPayload := payload
        hasWill := true }
  | none => return out

/-- The fields behind the domain. -/
def parseFields (id : UInt16) : Parser PeerInfo := do
  let flags ← u8
  let name ← str8
  let hostName ← str8
  let topicCount ← u8
  let out ← parseTopics topicCount.toNat
    { id, name, hostName, endpoints := [], publishedTopics := [], subscribedTopics := [] }
  let epCount ← u8
  let out ← parseEndpoints epCount.toNat out
  if flags &&& 0x01 ≠ 0 then parseWill out else return out

def parseAnnounce (agent : DiscoveryAgent) : Parser (Option PeerInfo) := do
  let id ← u16
  let domainId ← u8
  if !(← isOk) || decide (domainId ≠ agent.domainId) then return none
  let out ← parseFields id
  return if ← isOk then some out else none

/-- `parseAnnouncePayload` with the positions it reads. -/
def parseAnnouncePayloadTracked (agent : DiscoveryAgent) (data : Bytes) :
    Tracked (Option PeerInfo) := do
  let (peer, _) ← agent.parseAnnounce.run { data }
  return peer

def parseAnnouncePayload (agent : DiscoveryAgent) (data : Bytes) : Option PeerInfo :=
  (agent.parseAnnouncePayloadTracked data).value

/-! ### Receiving -/

/-- `"0.0.0.0"`. -/
def anyAddress : Bytes := ascii ['0', '.', '0', '.', '0', '.', '0']

/-- The UDP endpoint of a peer is where its frame came from, and so is the address of a TCP
endpoint that does not say it. -/
def resolve (source : Endpoint) (endpoints : List Endpoint) : List Endpoint :=
  source :: endpoints.filterMap fun ep =>
    if ep.transportType = MessageBus.udp then none
    else if ep.transportType = MessageBus.tcp ∧ (ep.address = anyAddress ∨ ep.address.isEmpty) then
      some { ep with address := source.address }
    else some ep

/-- The call of the registry that a frame leads to. -/
def onDiscoveryMessage (agent : DiscoveryAgent) (source : Endpoint) (data : Bytes) :
    Option PeerRegistry.Call :=
  let result := decode agent.sizeT data
  if !result.valid then none
  else if result.header.sourceId = agent.nodeId then none
  else
    match MessageType.ofByte result.header.msgType with
    | .announce => (agent.parseAnnouncePayload result.payload).map fun peer =>
        .addOrUpdate { peer with endpoints := resolve source peer.endpoints }
    | .heartbeat => some (.heartbeat result.header.sourceId)
    | .farewell => some (.remove result.header.sourceId false)
    | _ => none

/-! ### What is read back -/

/-- A text behind its length is read back, cut off at the longest length. -/
theorem reads_putStr8 (s : Bytes) : Reads str8 (s.take 0xFF) (putStr8 s) := by
  have hcut : s.take 0xFF = s.take (min s.length 0xFF) := by
    rw [List.take_eq_take_iff]
    omega
  have hlt : min s.length 0xFF < UInt8.size := Nat.lt_of_le_of_lt (Nat.min_le_right _ _) (by decide)
  rw [hcut]
  refine reads_str8 ?_
  rw [List.length_take, UInt8.toNat_ofNat_of_lt' hlt]
  omega

theorem reads_putStr16 (s : Bytes) : Reads str16 (s.take 0xFFFF) (putStr16 s) := by
  have hcut : s.take 0xFFFF = s.take (min s.length 0xFFFF) := by
    rw [List.take_eq_take_iff]
    omega
  have hlt : min s.length 0xFFFF < UInt16.size :=
    Nat.lt_of_le_of_lt (Nat.min_le_right _ _) (by decide)
  rw [hcut]
  refine reads_str16 ?_
  rw [List.length_take, UInt16.toNat_ofNat_of_lt' hlt]
  omega

theorem reads_parseTopics (topics : List Bytes) (out : PeerInfo) :
    Reads (parseTopics topics.length out)
      { out with
        subscribedTopics := out.subscribedTopics ++ topics.map (List.take 0xFFFF) }
      (topics.flatMap putTopic) := by
  induction topics generalizing out with
  | nil =>
      rw [List.map_nil, List.append_nil, List.flatMap_nil, List.length_nil, parseTopics]
      exact reads_pure out
  | cons topic topics ih =>
      have hbytes : (topic :: topics).flatMap putTopic =
          [] ++ ([roleSub] ++ (putStr16 topic ++ ([] ++ topics.flatMap putTopic))) := by
        simp [putTopic]
      rw [hbytes, List.length_cons, parseTopics, List.map_cons]
      refine reads_isOk.bind ?_
      refine (reads_u8 roleSub).bind ?_
      refine (reads_putStr16 topic).bind ?_
      refine reads_isOk.bind ?_
      simpa using ih { out with
        subscribedTopics := out.subscribedTopics ++ [topic.take 0xFFFF] }

/-- An endpoint with its texts cut off. -/
def cutEndpoint (ep : Endpoint) : Endpoint :=
  { ep with transportType := ep.transportType.take 0xFF, address := ep.address.take 0xFF }

theorem reads_parseEndpoints (eps : List Endpoint) (out : PeerInfo) :
    Reads (parseEndpoints eps.length out)
      { out with endpoints := out.endpoints ++ eps.map cutEndpoint }
      (eps.flatMap putEndpoint) := by
  induction eps generalizing out with
  | nil =>
      rw [List.map_nil, List.append_nil, List.flatMap_nil, List.length_nil, parseEndpoints]
      exact reads_pure out
  | cons ep eps ih =>
      have hbytes : (ep :: eps).flatMap putEndpoint =
          [] ++ (putStr8 ep.transportType ++ (putStr8 ep.address ++ (bytes16 ep.port ++
            ([] ++ eps.flatMap putEndpoint)))) := by
        simp [putEndpoint]
      rw [hbytes, List.length_cons, parseEndpoints, List.map_cons]
      refine reads_isOk.bind ?_
      refine (reads_putStr8 ep.transportType).bind ?_
      refine (reads_putStr8 ep.address).bind ?_
      refine (reads_u16 ep.port).bind ?_
      refine reads_isOk.bind ?_
      have hrest := ih { out with endpoints := out.endpoints ++ [cutEndpoint ep] }
      rw [List.append_assoc, List.singleton_append] at hrest
      rw [if_pos rfl]
      exact hrest

/-- What the will adds to a record. -/
def withWill (will : LastWill) (out : PeerInfo) : PeerInfo :=
  { out with
    willQos := will.qos.toByte, willRetain := will.retain, willTopic := will.topic.take 0xFFFF
    willPayload := will.payload, hasWill := true }

theorem accepts_parseWill {will : LastWill} (h : will.payload.length < 2 ^ 32) (out : PeerInfo) :
    Accepts (parseWill out) (withWill will out) (putWill will) := by
  have hlength : will.payload.length = (UInt32.ofNat will.payload.length).toNat :=
    (UInt32.toNat_ofNat_of_lt' h).symm
  have hbytes : putWill will =
      [will.qos.toByte] ++ ([if will.retain then 1 else 0] ++ (putStr16 will.topic ++
        (bytes32 (UInt32.ofNat will.payload.length) ++ ([] ++ will.payload)))) := by
    simp [putWill]
  rw [hbytes, parseWill]
  refine Accepts.bind (reads_u8 _) ?_
  refine Accepts.bind (reads_u8 _) ?_
  refine Accepts.bind (reads_putStr16 _) ?_
  refine Accepts.bind (reads_u32 _) ?_
  refine Accepts.bind reads_isOk ?_
  rw [if_neg (by decide)]
  refine (accepts_peek hlength).bind_quiet fun r _ => ?_
  have hretain : decide ((if will.retain then (1 : UInt8) else 0) ≠ 0) = will.retain := by
    cases will.retain <;> rfl
  rw [withWill, hretain]
  rfl

/-- What a payload is parsed to: the texts and the lists are cut off at their longest lengths. -/
def record (agent : DiscoveryAgent) (topics : List Bytes) (eps : List Endpoint) : PeerInfo :=
  let peer : PeerInfo :=
    { id := agent.nodeId, name := agent.nodeName.take 0xFF, hostName := agent.hostName.take 0xFF
      endpoints := (eps.take 255).map cutEndpoint, publishedTopics := []
      subscribedTopics := (topics.take 255).map (List.take 0xFFFF) }
  if agent.hasWill then withWill agent.lastWill peer else peer

/-- The length of the will's payload fits its field. -/
def WillFits (agent : DiscoveryAgent) : Prop :=
  agent.hasWill = true → agent.lastWill.payload.length < 2 ^ 32

theorem accepts_parseFields {agent : DiscoveryAgent} (h : agent.WillFits) (topics : List Bytes)
    (eps : List Endpoint) :
    Accepts (parseFields agent.nodeId) (agent.record topics eps)
      ([if agent.hasWill then 0x01 else 0x00] ++ (putStr8 agent.nodeName ++
        (putStr8 agent.hostName ++ ([UInt8.ofNat (min topics.length 255)] ++
          ((topics.take (min topics.length 255)).flatMap putTopic ++
            ([UInt8.ofNat (min eps.length 255)] ++
              ((eps.take (min eps.length 255)).flatMap putEndpoint ++
                (if agent.hasWill then putWill agent.lastWill else [])))))))) := by
  have hcount : ∀ {α : Type} (xs : List α),
      (UInt8.ofNat (min xs.length 255)).toNat = (xs.take (min xs.length 255)).length ∧
        xs.take (min xs.length 255) = xs.take 255 := by
    intro α xs
    have hlt : min xs.length 255 < UInt8.size :=
      Nat.lt_of_le_of_lt (Nat.min_le_right _ _) (by decide)
    rw [UInt8.toNat_ofNat_of_lt' hlt, List.length_take, List.take_eq_take_iff]
    omega
  rw [parseFields]
  refine Accepts.bind (reads_u8 _) ?_
  refine Accepts.bind (reads_putStr8 _) ?_
  refine Accepts.bind (reads_putStr8 _) ?_
  refine Accepts.bind (reads_u8 _) ?_
  rw [(hcount topics).1]
  refine Accepts.bind (reads_parseTopics _ _) ?_
  refine Accepts.bind (reads_u8 _) ?_
  rw [(hcount eps).1]
  refine Accepts.bind (reads_parseEndpoints _ _) ?_
  rw [(hcount topics).2, (hcount eps).2, record]
  cases hwill : agent.hasWill with
  | true => exact accepts_parseWill (h hwill) _
  | false => exact (reads_pure _).toAccepts

theorem accepts_parseAnnounce {agent sender : DiscoveryAgent}
    (hdomain : sender.domainId = agent.domainId) (h : sender.WillFits) (topics : List Bytes)
    (eps : List Endpoint) :
    Accepts agent.parseAnnounce (some (sender.record topics eps))
      (sender.buildAnnouncePayload topics eps) := by
  have hbytes : sender.buildAnnouncePayload topics eps =
      bytes16 sender.nodeId ++ ([sender.domainId] ++ ([] ++
        ([if sender.hasWill then 0x01 else 0x00] ++ (putStr8 sender.nodeName ++
        (putStr8 sender.hostName ++ ([UInt8.ofNat (min topics.length 255)] ++
          ((topics.take (min topics.length 255)).flatMap putTopic ++
            ([UInt8.ofNat (min eps.length 255)] ++
              ((eps.take (min eps.length 255)).flatMap putEndpoint ++
                (if sender.hasWill then putWill sender.lastWill else [])))))))))) := by
    simp only [buildAnnouncePayload, List.append_assoc, List.nil_append]
  rw [hbytes, parseAnnounce]
  refine Accepts.bind (reads_u16 _) ?_
  refine Accepts.bind (reads_u8 _) ?_
  refine Accepts.bind reads_isOk ?_
  rw [if_neg (by simp [hdomain])]
  refine (accepts_parseFields h topics eps).bind_quiet fun r hok => ?_
  change (if r.ok then _ else _, r) = _
  rw [if_pos hok]

/-! ### What a parsed payload says -/

section Payload

variable {agent sender : DiscoveryAgent} (topics : List Bytes) (eps : List Endpoint)

theorem parseAnnouncePayload_eq (agent : DiscoveryAgent) (data : Bytes) :
    agent.parseAnnouncePayload data = (agent.parseAnnounce.run { data }).value.1 := rfl

/-- After a failed read nothing is returned. -/
theorem parseAnnounce_failed {r : Reader} (h : (agent.parseAnnounce.run r).value.2.ok = false) :
    (agent.parseAnnounce.run r).value.1 = none := by
  simp only [parseAnnounce, Parser.bind_value, Parser.ite_value, Parser.pure_value] at h ⊢
  split at h
  · rename_i hreject
    rw [if_pos hreject]
  · rename_i haccept
    rw [if_neg haccept]
    rw [Reader.isOk_value] at h ⊢
    exact if_neg (ne_true_of_eq_false h)

/-- The payload is parsed to the record of its sender, whatever follows it. -/
theorem parseAnnouncePayload_append (hdomain : sender.domainId = agent.domainId)
    (h : sender.WillFits) (more : Bytes) :
    agent.parseAnnouncePayload (sender.buildAnnouncePayload topics eps ++ more) =
      some (sender.record topics eps) := by
  rw [parseAnnouncePayload_eq]
  have haccepts := accepts_parseAnnounce hdomain h topics eps
  exact (haccepts.value _ more ⟨rfl, Nat.zero_le _⟩ (Reader.rest_start _)).1

/-- Less of it is rejected. -/
theorem parseAnnouncePayload_take (hdomain : sender.domainId = agent.domainId)
    (h : sender.WillFits) {n : Nat} (hn : n < (sender.buildAnnouncePayload topics eps).length) :
    agent.parseAnnouncePayload ((sender.buildAnnouncePayload topics eps).take n) = none := by
  rw [parseAnnouncePayload_eq]
  refine parseAnnounce_failed ?_
  refine (accepts_parseAnnounce hdomain h topics eps).short _ ⟨rfl, Nat.zero_le _⟩ ?_
  refine ⟨(sender.buildAnnouncePayload topics eps).drop n, ?_, ?_⟩
  · rw [Ne, List.drop_eq_nil_iff]
    omega
  · rw [Reader.rest_start, List.take_append_drop]

/-- The payload of another domain is rejected. -/
theorem parseAnnouncePayload_domain (hdomain : sender.domainId ≠ agent.domainId) :
    agent.parseAnnouncePayload (sender.buildAnnouncePayload topics eps) = none := by
  obtain ⟨more, hbuild⟩ : ∃ more, sender.buildAnnouncePayload topics eps =
      bytes16 sender.nodeId ++ ([sender.domainId] ++ more) := by
    simp only [buildAnnouncePayload, List.append_assoc]
    exact ⟨_, rfl⟩
  rw [hbuild, parseAnnouncePayload_eq]
  have hstart : Good { data := bytes16 sender.nodeId ++ ([sender.domainId] ++ more) } :=
    ⟨rfl, Nat.zero_le _⟩
  obtain ⟨hgood, hrest⟩ := (reads_u16 _).moves _ _ hstart (Reader.rest_start _)
  have hread := ((reads_u8 _).value _ _ hgood hrest).1
  simp only [parseAnnounce, Parser.bind_value, Parser.ite_value, Parser.pure_value, hread]
  rw [if_pos (by simp [hdomain])]

omit topics eps in
theorem parseTopics_id (count : Nat) (out : PeerInfo) (r : Reader) :
    ((parseTopics count out).run r).value.1.id = out.id := by
  induction count generalizing out r with
  | zero => rfl
  | succ count ih =>
      simp only [parseTopics, Parser.bind_value, Parser.ite_value, Parser.pure_value]
      repeat' split
      all_goals first | rfl | exact ih _ _

omit topics eps in
theorem parseEndpoints_id (count : Nat) (out : PeerInfo) (r : Reader) :
    ((parseEndpoints count out).run r).value.1.id = out.id := by
  induction count generalizing out r with
  | zero => rfl
  | succ count ih =>
      simp only [parseEndpoints, Parser.bind_value, Parser.ite_value, Parser.pure_value]
      repeat' split
      all_goals first | rfl | exact ih _ _

omit topics eps in
theorem parseWill_id (out : PeerInfo) (r : Reader) :
    ((parseWill out).run r).value.1.id = out.id := by
  simp only [parseWill, Parser.bind_value, Parser.ite_value, Parser.pure_value]
  repeat' split
  all_goals rfl

omit topics eps in
theorem parseFields_id (id : UInt16) (r : Reader) : ((parseFields id).run r).value.1.id = id := by
  simp only [parseFields, Parser.bind_value, Parser.ite_value, Parser.pure_value]
  split
  · rw [parseWill_id, parseEndpoints_id, parseTopics_id]
  · rw [parseEndpoints_id, parseTopics_id]

/-- The node that a payload says it comes from. -/
def announcedId (payload : Bytes) : UInt16 := UInt16.ofNat (MessageCodec.field payload 0 2)

omit topics eps in
theorem parseAnnouncePayload_id {payload : Bytes} {peer : PeerInfo}
    (h : agent.parseAnnouncePayload payload = some peer) : peer.id = announcedId payload := by
  rw [parseAnnouncePayload_eq] at h
  simp only [parseAnnounce, Parser.bind_value, Parser.ite_value, Parser.pure_value] at h
  split at h
  · cases h
  · rename_i haccepted
    split at h
    · obtain rfl := Option.some.inj h
      rw [parseFields_id]
      obtain hlt | hle := Nat.lt_or_ge payload.length (0 + 2)
      · -- The first read fails, and the failure is kept.
        refine absurd ?_ haccepted
        have hfailed : ((u8.run (u16.run { data := payload }).value.2).value.2).ok = false := by
          refine u8.sticky _ ?_
          rw [u16, fetch_of_lt hlt]
        rw [isOk_value, hfailed]
        rfl
      · rw [u16, fetch_of_le hle]
        exact MessageCodec.getU16_value hle
    · cases h

/-- What is parsed is the record of the node that has built the payload. -/
theorem parseAnnouncePayload_build (h : sender.WillFits) {peer : PeerInfo}
    (hparsed : agent.parseAnnouncePayload (sender.buildAnnouncePayload topics eps) = some peer) :
    peer = sender.record topics eps := by
  by_cases hdomain : sender.domainId = agent.domainId
  · have happend := parseAnnouncePayload_append topics eps hdomain h []
    rw [List.append_nil, hparsed] at happend
    exact Option.some.inj happend
  · rw [parseAnnouncePayload_domain topics eps hdomain] at hparsed
    cases hparsed

theorem record_id : (sender.record topics eps).id = sender.nodeId := by
  rw [record]
  split <;> rfl

theorem record_hasWill : (sender.record topics eps).hasWill = sender.hasWill := by
  rw [record]
  cases sender.hasWill <;> rfl

theorem record_subscribedTopics :
    (sender.record topics eps).subscribedTopics = (topics.take 255).map (List.take 0xFFFF) := by
  rw [record]
  split <;> rfl

/-- The will is part of the payload. -/
theorem willFits_of_length (h : (sender.buildAnnouncePayload topics eps).length < 2 ^ 32) :
    sender.WillFits := by
  intro hwill
  refine Nat.lt_of_le_of_lt ?_ h
  simp only [buildAnnouncePayload, hwill, if_true, putWill, List.length_append]
  omega

/-- What a node of the domain builds is parsed to its record, whatever follows it; less of it is
rejected; and no payload makes the parser read outside of it. -/
theorem announcePayload_format (hdomain : sender.domainId = agent.domainId) (h : sender.WillFits) :
    agent.parseAnnouncePayload (sender.buildAnnouncePayload topics eps) =
        some (sender.record topics eps) ∧
      (∀ n < (sender.buildAnnouncePayload topics eps).length,
        agent.parseAnnouncePayload ((sender.buildAnnouncePayload topics eps).take n) = none) ∧
      (∀ more, agent.parseAnnouncePayload (sender.buildAnnouncePayload topics eps ++ more) =
        some (sender.record topics eps)) ∧
      ∀ data, (agent.parseAnnouncePayloadTracked data).Within data.length := by
  have happend := parseAnnouncePayload_append topics eps hdomain h
  have hwhole := happend []
  rw [List.append_nil] at hwhole
  refine ⟨hwhole, fun n hn => parseAnnouncePayload_take topics eps hdomain h hn, happend, ?_⟩
  intro data
  exact (agent.parseAnnounce.inside { data }).bind (Tracked.within_pure _ _)

end Payload

/-- A node with a will. -/
def willing (topic : Bytes) : DiscoveryAgent where
  nodeId := 2
  nodeName := [0x6E]
  hostName := [0x68]
  lastWill := { topic, payload := [1, 2], enabled := true }

theorem announcePayload_format_willing :
    (willing []).parseAnnouncePayload ((willing [0x74]).buildAnnouncePayload [[0x61]] []) =
      some { id := 2, name := [0x6E], hostName := [0x68], endpoints := [], publishedTopics := []
             subscribedTopics := [[0x61]], hasWill := true, willTopic := [0x74]
             willPayload := [1, 2], willRetain := true, willQos := 1 } :=
  (announcePayload_format [[0x61]] [] rfl fun _ => by decide).1

/-- The topic of a will is cut off like the other texts. -/
theorem announcePayload_will_cut :
    ¬ ∀ (agent sender : DiscoveryAgent) (topics : List Bytes) (eps : List Endpoint),
      sender.domainId = agent.domainId → sender.lastWill.payload.length < 2 ^ 32 →
      sender.hasWill = true →
      ∃ peer, agent.parseAnnouncePayload (sender.buildAnnouncePayload topics eps) = some peer ∧
        peer.willTopic = sender.lastWill.topic := by
  intro hclaim
  let topic : Bytes := List.replicate 65536 0x74
  obtain ⟨peer, hparsed, htopic⟩ := hclaim (willing []) (willing topic) [] [] rfl (by decide) rfl
  have hrecord := parseAnnouncePayload_build [] [] (fun _ => by decide) hparsed
  have hcut : ((willing topic).record [] []).willTopic = topic.take 0xFFFF := rfl
  rw [hrecord, hcut] at htopic
  have hlength := congrArg List.length htopic
  change (topic.take 0xFFFF).length = topic.length at hlength
  rw [List.length_take, List.length_replicate] at hlength
  omega

/-! ### The receive callback of a participant -/

def isDiscovery : MessageType → Bool
  | .announce | .heartbeat | .farewell | .discoverReq | .discoverRsp => true
  | _ => false

/-- The first bytes of a frame decide who gets it. Frames for the message bus lead to no call
of the registry. -/
def recvCallback (agent : DiscoveryAgent) (source : Endpoint) (data : Bytes) :
    Option PeerRegistry.Call :=
  if data.length < MessageCodec.headerBaseSize then none
  else if data.getD 0 0 ≠ MessageCodec.magic.toUInt8 ∨
      data.getD 1 0 ≠ (MessageCodec.magic >>> 8).toUInt8 ∨
      data.getD 2 0 ≠ MessageCodec.version then none
  else if isDiscovery (MessageType.ofByte (data.getD 3 0)) then agent.onDiscoveryMessage source data
  else none

/-- `UdpTransport::processFd`: a datagram is cut off at the size of the receive buffer, and an
empty one is dropped. -/
def processFd (agent : DiscoveryAgent) (recvBufferSize : UInt32) (source : Endpoint)
    (datagram : Bytes) : Option PeerRegistry.Call :=
  let data := datagram.take recvBufferSize.toNat
  if data.isEmpty then none else agent.recvCallback source data

section Receive

variable {agent : DiscoveryAgent} {source : Endpoint}

theorem magic_bytes {data : Bytes} (h : MessageCodec.WellFormed data) :
    data.getD 0 0 = MessageCodec.magic.toUInt8 ∧
      data.getD 1 0 = (MessageCodec.magic >>> 8).toUInt8 := by
  have hbase := h.base
  have hvalue := h.magic
  rw [MessageCodec.field, MessageCodec.slice_cons 1 (by omega),
    MessageCodec.slice_cons 0 (by omega), MessageCodec.slice_zero] at hvalue
  have hfield : [data.getD 0 0, data.getD 1 0] = bytes16 MessageCodec.magic :=
    LittleEndian.value_injective rfl hvalue
  obtain ⟨hfirst, hsecond⟩ := List.cons.inj hfield
  exact ⟨hfirst, (List.cons.inj hsecond).1⟩

/-- The discovery agent rejects by itself what the callback keeps from it. -/
theorem recvCallback_eq (data : Buffer agent.sizeT) :
    agent.recvCallback source data.bytes = agent.onDiscoveryMessage source data.bytes := by
  by_cases hvalid : (decode agent.sizeT data.bytes).valid = true
  · have hwf := MessageCodec.wellFormed_of_valid data.fits hvalid
    obtain ⟨hfirst, hsecond⟩ := magic_bytes hwf
    have hdecode : decode agent.sizeT data.bytes = MessageCodec.accepted data.bytes :=
      MessageCodec.decode_of_wellFormed hwf (Nat.lt_of_le_of_lt hwf.length data.fits)
    have htype : (decode agent.sizeT data.bytes).header.msgType = data.bytes.getD 3 0 := by
      rw [hdecode]
      rfl
    have hbase : ¬ data.bytes.length < MessageCodec.headerBaseSize := Nat.not_lt.mpr hwf.base
    rw [recvCallback, if_neg hbase,
      if_neg (by rw [hfirst, hsecond, hwf.version]; decide)]
    split
    · rfl
    · rename_i hother
      simp only [onDiscoveryMessage, hvalid, htype, Bool.not_true, Bool.false_eq_true, if_false]
      split
      · rfl
      · split
        · rename_i heq
          rw [heq] at hother
          exact absurd rfl hother
        · rename_i heq
          rw [heq] at hother
          exact absurd rfl hother
        · rename_i heq
          rw [heq] at hother
          exact absurd rfl hother
        · rfl
  · have hnone : agent.onDiscoveryMessage source data.bytes = none := by
      rw [onDiscoveryMessage, if_pos (by simpa using hvalid)]
    rw [recvCallback, hnone]
    repeat' split
    all_goals rfl

theorem processFd_eq (recvBufferSize : UInt32) (datagram : Bytes) :
    agent.processFd recvBufferSize source datagram =
      agent.onDiscoveryMessage source (datagram.take recvBufferSize.toNat) := by
  have hfits : (datagram.take recvBufferSize.toNat).length < agent.sizeT.modulus :=
    SizeT.lt_modulus (Nat.lt_of_le_of_lt (List.length_take_le _ _) recvBufferSize.toNat_lt) _
  have hcallback : agent.recvCallback source (datagram.take recvBufferSize.toNat) =
      agent.onDiscoveryMessage source (datagram.take recvBufferSize.toNat) :=
    recvCallback_eq ⟨_, hfits⟩
  rw [processFd]
  split
  · rename_i hempty
    rw [List.isEmpty_iff] at hempty
    rw [← hcallback, hempty]
    rfl
  · exact hcallback

end Receive

/-! ### What a peer makes of the frames of a node -/

section Frames

variable {agent sender : DiscoveryAgent} {source : Endpoint}

theorem frameArgs_encodable (sender : DiscoveryAgent) (type : MessageType) :
    MessageCodec.Encodable (sender.frameArgs type []) :=
  ⟨Nat.zero_le _, Nat.zero_le _⟩

theorem onDiscoveryMessage_farewell :
    agent.onDiscoveryMessage source sender.farewellFrame =
      if sender.nodeId = agent.nodeId then none else some (.remove sender.nodeId false) := by
  rw [onDiscoveryMessage, farewellFrame,
    MessageCodec.decode_encode (frameArgs_encodable sender .farewell)]
  simp only [MessageCodec.encodedHeader_type]
  rfl

theorem onDiscoveryMessage_heartbeat :
    agent.onDiscoveryMessage source sender.heartbeatFrame =
      if sender.nodeId = agent.nodeId then none else some (.heartbeat sender.nodeId) := by
  rw [onDiscoveryMessage, heartbeatFrame,
    MessageCodec.decode_encode (frameArgs_encodable sender .heartbeat)]
  simp only [MessageCodec.encodedHeader_type]
  rfl

theorem onDiscoveryMessage_announce {topics : List Bytes} {eps : List Endpoint}
    {call : PeerRegistry.Call}
    (h : agent.onDiscoveryMessage source (sender.announceFrame topics eps) = some call) :
    sender.nodeId ≠ agent.nodeId ∧ ∃ peer, call = .addOrUpdate peer ∧ peer.id = sender.nodeId ∧
      (sender.hasWill = false → peer.hasWill = false) := by
  rw [onDiscoveryMessage] at h
  split at h
  · cases h
  · rename_i hvalid
    rw [announceFrame] at h hvalid
    have henc := MessageCodec.encodable_of_valid (show _ = true by simpa using hvalid)
    rw [MessageCodec.decode_encode henc] at h
    split at h
    · cases h
    · rename_i hother
      simp only [MessageCodec.encodedHeader_type, frameArgs] at h
      obtain ⟨peer, hparsed, rfl⟩ := Option.map_eq_some_iff.mp h
      have hlength : (sender.buildAnnouncePayload topics eps).length < 2 ^ 32 :=
        Nat.lt_of_le_of_lt henc.2 (by decide)
      have hrecord :=
        parseAnnouncePayload_build topics eps (willFits_of_length topics eps hlength) hparsed
      rw [hrecord]
      exact ⟨hother, _, rfl, record_id topics eps,
        fun hwill => (record_hasWill topics eps).trans hwill⟩

/-- Of a FAREWELL, nothing is cut off. -/
theorem processFd_farewell {recvBufferSize : UInt32} (hroom : 64 ≤ recvBufferSize) :
    agent.processFd recvBufferSize source sender.farewellFrame =
      if sender.nodeId = agent.nodeId then none else some (.remove sender.nodeId false) := by
  have hlength : sender.farewellFrame.length = 30 := by
    rw [farewellFrame, MessageCodec.encode_eq, if_pos (frameArgs_encodable sender .farewell)]
    rfl
  have hroom' : 64 ≤ recvBufferSize.toNat := hroom
  rw [processFd_eq, List.take_of_length_le (by omega), onDiscoveryMessage_farewell]

theorem processFd_announce {recvBufferSize : UInt32} {topics : List Bytes} {eps : List Endpoint}
    {call : PeerRegistry.Call}
    (h : agent.processFd recvBufferSize source (sender.announceFrame topics eps) = some call) :
    sender.nodeId ≠ agent.nodeId ∧ ∃ peer, call = .addOrUpdate peer ∧ peer.id = sender.nodeId ∧
      (sender.hasWill = false → peer.hasWill = false) := by
  rw [processFd_eq] at h
  have hvalid : (decode agent.sizeT
      ((sender.announceFrame topics eps).take recvBufferSize.toNat)).valid = true := by
    by_contra hinvalid
    rw [onDiscoveryMessage, if_pos (by simpa using hinvalid)] at h
    cases h
  have hwhole : (sender.announceFrame topics eps).take recvBufferSize.toNat =
      sender.announceFrame topics eps :=
    MessageCodec.take_encode_of_valid recvBufferSize.toNat_lt hvalid
  rw [hwhole] at h
  exact onDiscoveryMessage_announce h

end Frames

end DiscoveryAgent

end EmbedMq
