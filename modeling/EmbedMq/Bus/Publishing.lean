import EmbedMq.Bus.Sending
import EmbedMq.Codec.RoundTrip

/-!
# What `publish` puts on the wire

A message goes to the peers with a matching subscription. Each of them should get a
frame that decodes to the message, and a frame that is kept for repetition should be
that frame too. Both encoders refuse a topic or a payload that does not fit the header;
`publish` does not look at their result, and sends what is there without a header.
-/

namespace EmbedMq

/-- The bytes that an effect hands to the transport for the first time, or keeps for
repetition. -/
def Effect.handedOver : Effect → Option Bytes
  | frame _ _ slices => some slices.flatten
  | register _ _ data _ => some data
  | _ => none

/-- Where a first transmission goes. -/
def Effect.destination : Effect → Option Endpoint
  | frame _ dest _ => some dest
  | _ => none

namespace MessageBus

open MessageCodec (Encodable decode encode)

/-- The peer is a target of a message on `topic`: one of its announced topics matches, and it
has an endpoint. -/
def Target (topic : Bytes) (peer : PeerInfo) : Prop :=
  (peer.subscribedTopics.any fun sub =>
    TopicRouter.matchWildcard sub topic || decide (sub = topic)) = true ∧ peer.endpoints ≠ []

instance (topic : Bytes) (peer : PeerInfo) : Decidable (Target topic peer) :=
  inferInstanceAs (Decidable (_ ∧ _))

/-- The message fits the header. -/
def Fits (topic payload : Bytes) : Prop :=
  topic.length ≤ MessageCodec.maxTopicLen ∧ payload.length ≤ MessageCodec.maxPayloadLen

/-- The bytes decode to a PUBLISH with the topic, the payload, the flags and the level. -/
def IsPublish (topic payload : Bytes) (qos : QoSProfile) (flags : UInt8) (data : Bytes) : Prop :=
  ∀ sz, let r := decode sz data
    r.valid = true ∧ MessageType.ofByte r.header.msgType = .publish ∧ r.topic = topic ∧
      r.payload = payload ∧ r.header.flags = flags ∧
      QoSLevel.ofByte r.header.qosLevel = qos.level

/-- What `publish` sends and registers are frames of its message, and a message that does not
fit the header is neither sent nor registered. -/
structure PublishesFrames (env : Env) (topic payload : Bytes) (qos : QoSProfile) (flags : UInt8)
    (bus : MessageBus) : Prop where
  frames : ∀ effect ∈ (bus.publish env topic payload qos flags).2, ∀ data,
    effect.handedOver = some data → IsPublish topic payload qos flags data
  refused : ¬ Fits topic payload → ∀ effect ∈ (bus.publish env topic payload qos flags).2,
    effect.handedOver = none

/-! ### The targets -/

variable (env : Env) (bus : MessageBus) (topic payload : Bytes) (qos : QoSProfile) (flags : UInt8)

theorem targets_eq :
    (bus.targets env fun sub => TopicRouter.matchWildcard sub topic || decide (sub = topic)) =
      (bus.peers.toList.filter fun entry => decide (Target topic entry.2)).map
        fun entry => bus.selectEndpoint env entry.2 := by
  rw [targets, ← List.filterMap_eq_map, List.filterMap_filter]
  refine List.filterMap_congr fun entry _ => ?_
  have htest : (entry.2.subscribedTopics.any (fun sub =>
      TopicRouter.matchWildcard sub topic || decide (sub = topic)) && !entry.2.endpoints.isEmpty) =
      decide (Target topic entry.2) := by
    rw [Bool.eq_iff_iff, Bool.and_eq_true, decide_eq_true_iff, Target, Bool.not_eq_true',
      List.isEmpty_eq_false_iff]
  rw [htest]
  rfl

theorem publishTo_destinations (eps : List Endpoint) :
    (publishTo env topic payload qos flags eps bus).2.filterMap Effect.destination = eps := by
  induction eps generalizing bus with
  | nil => rfl
  | cons ep rest ih =>
      have hone : (bus.publishOne env topic payload qos flags ep).2.filterMap
          Effect.destination = [ep] := by
        rw [publishOne]
        dsimp only
        split <;> rfl
      simp only [publishTo, List.filterMap_append, hone, ih]
      rfl

/-- A message is sent once to every target. -/
theorem publish_destinations :
    (bus.publish env topic payload qos flags).2.filterMap Effect.destination =
      (bus.peers.toList.filter fun entry => decide (Target topic entry.2)).map
        fun entry => bus.selectEndpoint env entry.2 := by
  obtain ⟨store, hstore⟩ := retain_shape env { bus with seqCounter := bus.seqCounter + 1 } flags
    { topic, payload, sourceId := bus.nodeId, sequenceId := UInt32.ofNat bus.seqCounter }
    qos.lifespanMs
  have htargets := targets_eq env
    { bus with seqCounter := bus.seqCounter + 1, retainedStore := store } topic
  simp only [publish, hstore, htargets]
  exact publishTo_destinations env _ topic payload qos flags _

/-! ### The frames -/

variable {topic payload}

/-- What is handed over is the content of a frame. -/
theorem content_of_handedOver {effect : Effect}
    (hmem : effect ∈ (bus.publish env topic payload qos flags).2) {data : Bytes}
    (hdata : effect.handedOver = some data) :
    ∃ n, Content bus.nodeId (.publish topic payload qos flags) n data := by
  have hemission := publish_emission env bus topic payload qos flags
  cases effect with
  | frame n dest slices =>
      rw [← Option.some.inj hdata]
      exact ⟨n, hemission.content hmem⟩
  | register seqId dest kept qos' =>
      obtain ⟨n, slices, _, hframe, hslices, _⟩ := hemission.registered hmem
      rw [← Option.some.inj hdata, ← hslices]
      exact ⟨n, hemission.content hframe⟩
  | answer | resend | resendRel | abandoned | evict | route | replay | handle | settle =>
      cases hdata

theorem isPublish_encode (hfits : Fits topic payload) (seqId : UInt32) (stamp : UInt64) :
    IsPublish topic payload qos flags
      (encode (bus.publishArgs topic payload qos flags seqId) stamp) := by
  intro sz
  have henc : Encodable (bus.publishArgs topic payload qos flags seqId) := hfits
  rw [MessageCodec.decode_encode henc]
  exact ⟨rfl, MessageCodec.encodedHeader_type _ _, rfl, rfl, rfl,
    MessageCodec.encodedHeader_level _ _⟩

theorem isPublish_of_content (hfits : Fits topic payload) {nodeId : UInt16} {n : Nat}
    {data : Bytes} (h : Content nodeId (.publish topic payload qos flags) n data) :
    IsPublish topic payload qos flags data := by
  cases h with
  | publish hb stamp => exact isPublish_encode _ qos flags hfits _ stamp
  | raw hlevel hlong =>
      obtain htopic | hpayload := hlong
      · exact absurd hfits.1 (Nat.not_le.mpr htopic)
      · exact absurd hfits.2 (Nat.not_le.mpr hpayload)
  | request hb stamp hcall =>
      obtain htick | ⟨_, _, _, _, _, hrequest⟩ := hcall
      · cases htick
      · cases hrequest

theorem exists_destination_iff :
    (∃ effect ∈ (bus.publish env topic payload qos flags).2, effect.destination ≠ none) ↔
      ∃ id peer, bus.peers.lookup id = some peer ∧ Target topic peer := by
  have hdestinations := publish_destinations env bus topic payload qos flags
  constructor
  · rintro ⟨effect, hmem, hsome⟩
    obtain ⟨dest, hdest⟩ := Option.ne_none_iff_exists'.mp hsome
    have hlisted := List.mem_filterMap.mpr ⟨effect, hmem, hdest⟩
    rw [hdestinations] at hlisted
    obtain ⟨entry, hentry, _⟩ := List.mem_map.mp hlisted
    obtain ⟨hpeer, htarget⟩ := List.mem_filter.mp hentry
    exact ⟨entry.1, entry.2, Table.mem_toList_iff.mp hpeer, of_decide_eq_true htarget⟩
  · rintro ⟨id, peer, hlookup, htarget⟩
    have hentry : (id, peer) ∈ bus.peers.toList.filter fun entry =>
        decide (Target topic entry.2) :=
      List.mem_filter.mpr ⟨Table.mem_toList_iff.mpr hlookup, decide_eq_true htarget⟩
    have hlisted := List.mem_map_of_mem (f := fun entry => bus.selectEndpoint env entry.2) hentry
    rw [← hdestinations] at hlisted
    obtain ⟨effect, hmem, hdest⟩ := List.mem_filterMap.mp hlisted
    exact ⟨effect, hmem, Option.ne_none_iff_exists'.mpr ⟨_, hdest⟩⟩

/-- Something is handed over if and only if there is a target. -/
theorem exists_handedOver_iff :
    (∃ effect ∈ (bus.publish env topic payload qos flags).2, effect.handedOver ≠ none) ↔
      ∃ id peer, bus.peers.lookup id = some peer ∧ Target topic peer := by
  rw [← exists_destination_iff env bus qos flags]
  constructor
  · rintro ⟨effect, hmem, hsome⟩
    cases effect with
    | frame n dest slices => exact ⟨_, hmem, by simp [Effect.destination]⟩
    | register seqId dest kept qos' =>
        obtain ⟨n, slices, _, hframe, _⟩ :=
          (publish_emission env bus topic payload qos flags).registered hmem
        exact ⟨_, hframe, by simp [Effect.destination]⟩
    | answer | resend | resendRel | abandoned | evict | route | replay | handle | settle =>
        exact absurd rfl hsome
  · rintro ⟨effect, hmem, hsome⟩
    cases effect with
    | frame n dest slices => exact ⟨_, hmem, by simp [Effect.handedOver]⟩
    | register | answer | resend | resendRel | abandoned | evict | route | replay | handle
      | settle => exact absurd rfl hsome

/-- What `publish` hands over are frames if and only if the message fits the header or has no
target. -/
theorem publishesFrames_iff :
    PublishesFrames env topic payload qos flags bus ↔
      Fits topic payload ∨
        ∀ id peer, bus.peers.lookup id = some peer → ¬ Target topic peer := by
  constructor
  · intro h
    by_cases hfits : Fits topic payload
    · exact Or.inl hfits
    · refine Or.inr fun id peer hlookup htarget => ?_
      obtain ⟨effect, hmem, hsome⟩ :=
        (exists_handedOver_iff env bus qos flags).mpr ⟨id, peer, hlookup, htarget⟩
      exact hsome (h.refused hfits effect hmem)
  · rintro (hfits | hnone)
    · constructor
      · intro effect hmem data hdata
        obtain ⟨n, hcontent⟩ := content_of_handedOver env bus qos flags hmem hdata
        exact isPublish_of_content qos flags hfits hcontent
      · exact fun hnot => absurd hfits hnot
    · have hquiet : ∀ effect ∈ (bus.publish env topic payload qos flags).2,
          effect.handedOver = none := by
        intro effect hmem
        by_contra hsome
        obtain ⟨id, peer, hlookup, htarget⟩ :=
          (exists_handedOver_iff env bus qos flags).mp ⟨effect, hmem, hsome⟩
        exact hnone id peer hlookup htarget
      constructor
      · intro effect hmem data hdata
        rw [hquiet effect hmem] at hdata
        cases hdata
      · exact fun _ => hquiet

/-- A bus that knows one peer, which subscribes to `t`. -/
def oneSubscriber : MessageBus where
  nodeId := 1
  localHostName := []
  peers := AList.insert 2
    { id := 2, name := [], hostName := [], publishedTopics := [], subscribedTopics := [[0x74]],
      endpoints := [{ address := ascii ['1', '0', '.', '0', '.', '0', '.', '2'], port := 7400,
                      transportType := udp }] } ∅

/-- A BestEffort message of one byte more than 64 MiB is sent without a header. -/
theorem not_publishesFrames :
    ¬ ∀ env topic payload qos flags bus, PublishesFrames env topic payload qos flags bus := by
  intro hclaim
  let payload : Bytes := List.replicate (MessageCodec.maxPayloadLen + 1) 0
  have hlong : ¬ Fits [0x74] payload := by
    intro hfits
    have hlength := hfits.2
    rw [List.length_replicate] at hlength
    exact absurd hlength (Nat.not_succ_le_self _)
  let env : Env :=
    { now := 0, sent := fun _ => 0, stamp := fun _ => 0, active := fun _ => true,
      invoke := fun _ _ => [] }
  obtain ⟨effect, hmem, hsome⟩ :=
    (@exists_handedOver_iff env oneSubscriber [0x74] payload {} 0).mpr ⟨2, _, rfl, by decide⟩
  exact hsome ((hclaim env [0x74] payload {} 0 oneSubscriber).refused hlong effect hmem)

end MessageBus

end EmbedMq
