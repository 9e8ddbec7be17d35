import EmbedMq.Bus.Basic

/-!
# What a call leaves alone

Each operation of the bus touches few of its fields. The first group of lemmas
says so for the parts of a call, the second for the identity of the node and its
sequence counter, and the third for the windows of the duplicate check: only a
received frame that is checked and the periodic task change a window, and a
checked PUBLISH reaches the router exactly when its number was not marked.
-/

namespace EmbedMq.MessageBus

open MessageCodec (DecodeResult encode)

variable (env : Env) (bus : MessageBus)

/-! ### Parts of a call -/

theorem retain_shape (flags : UInt8) (msg : ReceivedMessage) (lifespanMs : UInt32) :
    ∃ store, bus.retain env flags msg lifespanMs = { bus with retainedStore := store } := by
  unfold retain
  split
  · exact ⟨_, rfl⟩
  · exact ⟨bus.retainedStore, rfl⟩

theorem publishOne_shape (topic payload : Bytes) (qos : QoSProfile) (flags : UInt8)
    (ep : Endpoint) :
    ∃ pending, (bus.publishOne env topic payload qos flags ep).1 =
      { bus with seqCounter := bus.seqCounter + 1
                 qosEngine := { bus.qosEngine with pending } } := by
  simp only [publishOne]
  split
  · exact ⟨_, rfl⟩
  · exact ⟨bus.qosEngine.pending, rfl⟩

theorem publishTo_shape (topic payload : Bytes) (qos : QoSProfile) (flags : UInt8)
    (eps : List Endpoint) :
    ∃ pending, (publishTo env topic payload qos flags eps bus).1 =
      { bus with seqCounter := bus.seqCounter + eps.length
                 qosEngine := { bus.qosEngine with pending } } := by
  induction eps generalizing bus with
  | nil => exact ⟨bus.qosEngine.pending, rfl⟩
  | cons ep rest ih =>
      obtain ⟨first, hfirst⟩ := publishOne_shape env bus topic payload qos flags ep
      obtain ⟨pending, hrest⟩ := ih (bus.publishOne env topic payload qos flags ep).1
      refine ⟨pending, ?_⟩
      simp only [publishTo]
      rw [hrest, hfirst]
      simp [Nat.add_assoc, Nat.add_comm 1]

theorem publish_shape (topic payload : Bytes) (qos : QoSProfile) (flags : UInt8) :
    ∃ store n pending, (bus.publish env topic payload qos flags).1 =
      { bus with retainedStore := store
                 seqCounter := bus.seqCounter + 1 + n
                 qosEngine := { bus.qosEngine with pending } } := by
  obtain ⟨store, hstore⟩ := retain_shape env { bus with seqCounter := bus.seqCounter + 1 } flags
    { topic, payload, sourceId := bus.nodeId, sequenceId := UInt32.ofNat bus.seqCounter }
    qos.lifespanMs
  simp only [publish, hstore]
  obtain ⟨pending, h⟩ := publishTo_shape env
    { bus with seqCounter := bus.seqCounter + 1, retainedStore := store } topic payload qos flags
    (targets env { bus with seqCounter := bus.seqCounter + 1, retainedStore := store }
      fun sub => TopicRouter.matchWildcard sub topic || decide (sub = topic))
  exact ⟨store, _, pending, h⟩

theorem deliverWill_shape (topic payload : Bytes) (retainWill : Bool) (sourceId : UInt16) :
    ∃ store, (bus.deliverWill env topic payload retainWill sourceId).1 =
      { bus with retainedStore := store, seqCounter := bus.seqCounter + 1 } :=
  retain_shape env { bus with seqCounter := bus.seqCounter + 1 } _ _ 0

theorem dispatchRequest_shape (service payload : Bytes) (qos : QoSProfile) (corrId : UInt32) :
    ∃ n, (bus.dispatchRequest env service payload qos corrId).2.1 =
      { bus with seqCounter := bus.seqCounter + n } := by
  simp only [dispatchRequest]
  split
  · exact ⟨0, rfl⟩
  · exact ⟨1, rfl⟩

/-- A request that goes out takes one number, and each of its effects is a frame under it. -/
theorem mem_dispatchRequest {service payload : Bytes} {qos : QoSProfile} {corrId : UInt32}
    {effect : Effect}
    (h : effect ∈ (bus.dispatchRequest env service payload qos corrId).2.2) :
    (bus.dispatchRequest env service payload qos corrId).2.1.seqCounter = bus.seqCounter + 1 ∧
      ∃ dest stamp, effect = .frame bus.seqCounter dest
        [encode (bus.requestArgs service payload qos corrId (UInt32.ofNat bus.seqCounter))
          stamp] := by
  simp only [dispatchRequest] at h ⊢
  split at h
  · exact absurd h List.not_mem_nil
  · rename_i hsome
    obtain ⟨ep, _, rfl⟩ := List.mem_map.mp h
    rw [if_neg hsome]
    exact ⟨rfl, ep, _, rfl⟩

theorem dispatchAll_shape (jobs : List RetryJob) :
    ∃ n, (dispatchAll env jobs bus).1 = { bus with seqCounter := bus.seqCounter + n } := by
  induction jobs generalizing bus with
  | nil => exact ⟨0, rfl⟩
  | cons job rest ih =>
      obtain ⟨m, hfirst⟩ :=
        dispatchRequest_shape env bus job.service job.payload job.qos job.corrId
      obtain ⟨n, hrest⟩ := ih { bus with seqCounter := bus.seqCounter + m }
      refine ⟨m + n, ?_⟩
      simp only [dispatchAll, hfirst, hrest, Nat.add_assoc]

theorem sendReply_shape (dest : Endpoint) (corrId : UInt32) (payload : Bytes) (qos : QoSProfile)
    (registerRetransmit : Bool) :
    ∃ pending, (bus.sendReply env dest corrId payload qos registerRetransmit).1 =
      { bus with seqCounter := bus.seqCounter + 1
                 qosEngine := { bus.qosEngine with pending } } := by
  unfold sendReply
  split
  · exact ⟨_, rfl⟩
  · exact ⟨bus.qosEngine.pending, rfl⟩

theorem sendRequest_shape (service payload : Bytes) (qos : QoSProfile) (corrId : UInt32)
    (timeoutOverride : Int) :
    ∃ n requests, (bus.sendRequest env service payload qos corrId timeoutOverride).1 =
      { bus with seqCounter := bus.seqCounter + n, pendingRequests := requests } := by
  unfold sendRequest
  split
  · exact ⟨1, bus.pendingRequests, rfl⟩
  · rename_i hnone
    simp only
    generalize hpr : AList.insert corrId _ bus.pendingRequests = requests
    obtain ⟨n, hn⟩ := dispatchRequest_shape env { bus with pendingRequests := requests } service
      payload qos corrId
    rw [hn]
    split
    · exact ⟨n, _, rfl⟩
    · exact ⟨n, requests, rfl⟩

theorem serveRequest_shape (source : Endpoint) (r : DecodeResult) :
    ∃ n pending cache, (bus.serveRequest env source r).1 =
      { bus with seqCounter := bus.seqCounter + n, replyCache := cache
                 qosEngine := { bus.qosEngine with pending } } := by
  unfold serveRequest
  simp only
  split
  · obtain ⟨pending, h⟩ := sendReply_shape env bus source r.header.correlationId _ _ false
    exact ⟨1, pending, bus.replyCache, h⟩
  · split
    · generalize hcache : AList.insert _ _ bus.replyCache = cache
      obtain ⟨pending, h⟩ := sendReply_shape env { bus with replyCache := cache } source
        r.header.correlationId _ _ true
      exact ⟨1, pending, cache, h⟩
    · exact ⟨0, bus.qosEngine.pending, bus.replyCache, rfl⟩

theorem completeRequest_shape (source : Endpoint) (r : DecodeResult) :
    ∃ requests, (bus.completeRequest env source r).1 =
      { bus with pendingRequests := requests } := by
  unfold completeRequest
  simp only
  split
  · exact ⟨_, rfl⟩
  · exact ⟨bus.pendingRequests, rfl⟩

/-- Dispatching a frame may store a message, settle a request or send a reply; of
the engine it touches at most `pending`. -/
theorem dispatch_shape (source : Endpoint) (r : DecodeResult) :
    ∃ n pending cache requests store, (bus.dispatch env source r).1 =
      { bus with seqCounter := bus.seqCounter + n, replyCache := cache
                 pendingRequests := requests, retainedStore := store
                 qosEngine := { bus.qosEngine with pending } } := by
  unfold dispatch
  split
  · obtain ⟨store, h⟩ := retain_shape env bus r.header.flags _ 0
    exact ⟨0, bus.qosEngine.pending, bus.replyCache, bus.pendingRequests, store, h⟩
  · obtain ⟨n, pending, cache, h⟩ := serveRequest_shape env bus source r
    exact ⟨n, pending, cache, bus.pendingRequests, bus.retainedStore, h⟩
  · obtain ⟨requests, h⟩ := completeRequest_shape env bus source r
    exact ⟨0, bus.qosEngine.pending, bus.replyCache, requests, bus.retainedStore, h⟩
  · exact ⟨0, bus.qosEngine.pending, bus.replyCache, bus.pendingRequests, bus.retainedStore, rfl⟩

theorem tick_shape :
    ∃ n cache requests store, (bus.tick env).1 =
      { bus with seqCounter := bus.seqCounter + n, replyCache := cache
                 pendingRequests := requests, retainedStore := store
                 qosEngine := (bus.tickEngine env).1.qosEngine } := by
  simp only [tick]
  obtain ⟨n, h⟩ := dispatchAll_shape env
    (sweepRequests env (expireReplyCache env
      { (bus.tickEngine env).1 with
        retainedStore := (bus.tickEngine env).1.retainedStore.expire env.now }))
    (retryJobs env (expireReplyCache env
      { (bus.tickEngine env).1 with
        retainedStore := (bus.tickEngine env).1.retainedStore.expire env.now }))
  exact ⟨n, _, _, _, h⟩

/-! ### Cases of a received frame -/

/-- The types that end the handling of a frame before the duplicate check. -/
def isAcknowledgement : MessageType → Bool
  | .ack | .nack | .pubrec | .pubrel | .pubcomp => true
  | _ => false

theorem acknowledgement_cases (type : MessageType) :
    type = .ack ∨ type = .nack ∨ type = .pubrec ∨ type = .pubrel ∨ type = .pubcomp ∨
      isAcknowledgement type = false := by
  cases type <;> simp [isAcknowledgement]

section Received

variable {bus} {source : Endpoint} {data : Bytes} {r : DecodeResult}

theorem onReceived_invalid (hvalid : (MessageCodec.decode bus.sizeT data).valid = false) :
    bus.onReceived env source data = (bus, []) := by
  simp [onReceived, hvalid]

variable (hr : MessageCodec.decode bus.sizeT data = r) (hvalid : r.valid = true)
include hr hvalid

theorem onReceived_ack (htype : MessageType.ofByte r.header.msgType = .ack) :
    bus.onReceived env source data =
      ({ bus with qosEngine := bus.qosEngine.onAck r.header.sequenceId }, []) := by
  simp [onReceived, hr, hvalid, htype]

theorem onReceived_nack (htype : MessageType.ofByte r.header.msgType = .nack) :
    bus.onReceived env source data =
      ({ bus with qosEngine := (bus.qosEngine.onNack r.header.sequenceId
          (env.sent r.header.sequenceId)).1 },
        (bus.qosEngine.onNack r.header.sequenceId
          (env.sent r.header.sequenceId)).2.map .resend) := by
  simp [onReceived, hr, hvalid, htype]

theorem onReceived_pubrec (htype : MessageType.ofByte r.header.msgType = .pubrec) :
    bus.onReceived env source data = bus.receivePubrec env source r.header.sequenceId := by
  simp [onReceived, hr, hvalid, htype]

theorem onReceived_pubrel (htype : MessageType.ofByte r.header.msgType = .pubrel) :
    bus.onReceived env source data =
      (bus, [bus.sendCtrl env source .pubcomp r.header.sequenceId]) := by
  simp [onReceived, hr, hvalid, htype]

theorem onReceived_pubcomp (htype : MessageType.ofByte r.header.msgType = .pubcomp) :
    bus.onReceived env source data =
      ({ bus with qosEngine := bus.qosEngine.onPubcomp r.header.sequenceId }, []) := by
  simp [onReceived, hr, hvalid, htype]

theorem onReceived_data
    (htype : isAcknowledgement (MessageType.ofByte r.header.msgType) = false) :
    bus.onReceived env source data = bus.receiveData env source r := by
  simp only [onReceived, hr, hvalid, if_true]
  split <;> simp_all [isAcknowledgement]

omit hvalid in
/-- A property of the outcome of a received frame, by the type of the frame. -/
@[elab_as_elim]
theorem onReceived_elim {motive : MessageBus × List Effect → Prop}
    (invalid : r.valid = false → motive (bus, []))
    (ack : r.valid = true → MessageType.ofByte r.header.msgType = .ack →
      motive ({ bus with qosEngine := bus.qosEngine.onAck r.header.sequenceId }, []))
    (nack : r.valid = true → MessageType.ofByte r.header.msgType = .nack →
      motive ({ bus with qosEngine := (bus.qosEngine.onNack r.header.sequenceId
          (env.sent r.header.sequenceId)).1 },
        (bus.qosEngine.onNack r.header.sequenceId
          (env.sent r.header.sequenceId)).2.map .resend))
    (pubrec : r.valid = true → MessageType.ofByte r.header.msgType = .pubrec →
      motive (bus.receivePubrec env source r.header.sequenceId))
    (pubrel : r.valid = true → MessageType.ofByte r.header.msgType = .pubrel →
      motive (bus, [bus.sendCtrl env source .pubcomp r.header.sequenceId]))
    (pubcomp : r.valid = true → MessageType.ofByte r.header.msgType = .pubcomp →
      motive ({ bus with qosEngine := bus.qosEngine.onPubcomp r.header.sequenceId }, []))
    (content : r.valid = true →
      isAcknowledgement (MessageType.ofByte r.header.msgType) = false →
      motive (bus.receiveData env source r)) :
    motive (bus.onReceived env source data) := by
  cases hvalid : r.valid with
  | false =>
      rw [onReceived_invalid env (by rw [hr, hvalid])]
      exact invalid hvalid
  | true =>
      obtain htype | htype | htype | htype | htype | htype :=
        acknowledgement_cases (MessageType.ofByte r.header.msgType)
      · rw [onReceived_ack env hr hvalid htype]
        exact ack hvalid htype
      · rw [onReceived_nack env hr hvalid htype]
        exact nack hvalid htype
      · rw [onReceived_pubrec env hr hvalid htype]
        exact pubrec hvalid htype
      · rw [onReceived_pubrel env hr hvalid htype]
        exact pubrel hvalid htype
      · rw [onReceived_pubcomp env hr hvalid htype]
        exact pubcomp hvalid htype
      · rw [onReceived_data env hr hvalid htype]
        exact content hvalid htype

end Received

section ReceiveData

variable {bus} {source : Endpoint} {r : DecodeResult}

/-- The bus after the duplicate check of a frame. -/
def afterCheck (env : Env) (bus : MessageBus) (r : DecodeResult) : MessageBus :=
  { bus with qosEngine :=
      (bus.qosEngine.isDuplicate r.header.sourceId r.header.sequenceId env.now).2 }

theorem receiveData_unchecked (hlevel : QoSLevel.ofByte r.header.qosLevel ≠ .exactlyOnce) :
    bus.receiveData env source r =
      ((bus.dispatch env source r).1,
        bus.publishAnswer env source r ++ (bus.dispatch env source r).2) := by
  simp [receiveData, hlevel]

theorem receiveData_duplicate (hlevel : QoSLevel.ofByte r.header.qosLevel = .exactlyOnce)
    (hdup : (bus.qosEngine.isDuplicate r.header.sourceId r.header.sequenceId env.now).1 = true) :
    bus.receiveData env source r = (bus.afterCheck env r, bus.publishAnswer env source r) := by
  simp [receiveData, hlevel, hdup, afterCheck]

theorem receiveData_fresh (hlevel : QoSLevel.ofByte r.header.qosLevel = .exactlyOnce)
    (hdup : (bus.qosEngine.isDuplicate r.header.sourceId r.header.sequenceId env.now).1 = false) :
    bus.receiveData env source r =
      (((bus.afterCheck env r).dispatch env source r).1,
        bus.publishAnswer env source r ++ ((bus.afterCheck env r).dispatch env source r).2) := by
  simp [receiveData, hlevel, hdup, afterCheck]

/-- A property of the outcome of a frame with content, by the duplicate check. -/
@[elab_as_elim]
theorem receiveData_elim {motive : MessageBus × List Effect → Prop}
    (unchecked : QoSLevel.ofByte r.header.qosLevel ≠ .exactlyOnce →
      motive ((bus.dispatch env source r).1,
        bus.publishAnswer env source r ++ (bus.dispatch env source r).2))
    (duplicate : QoSLevel.ofByte r.header.qosLevel = .exactlyOnce →
      motive (bus.afterCheck env r, bus.publishAnswer env source r))
    (fresh : QoSLevel.ofByte r.header.qosLevel = .exactlyOnce →
      motive (((bus.afterCheck env r).dispatch env source r).1,
        bus.publishAnswer env source r ++ ((bus.afterCheck env r).dispatch env source r).2)) :
    motive (bus.receiveData env source r) := by
  by_cases hlevel : QoSLevel.ofByte r.header.qosLevel = .exactlyOnce
  · cases hdup : (bus.qosEngine.isDuplicate r.header.sourceId r.header.sequenceId env.now).1 with
    | true =>
        rw [receiveData_duplicate env hlevel hdup]
        exact duplicate hlevel
    | false =>
        rw [receiveData_fresh env hlevel hdup]
        exact fresh hlevel
  · rw [receiveData_unchecked env hlevel]
    exact unchecked hlevel

end ReceiveData

/-! ### Identity and counter -/

/-- The node stays the same, and its counter never goes back. -/
structure Kept (bus after : MessageBus) : Prop where
  nodeId : after.nodeId = bus.nodeId
  sizeT : after.sizeT = bus.sizeT
  seqCounter : bus.seqCounter ≤ after.seqCounter

theorem dispatch_kept (source : Endpoint) (r : DecodeResult) :
    Kept bus (bus.dispatch env source r).1 := by
  obtain ⟨_, _, _, _, _, h⟩ := dispatch_shape env bus source r
  rw [h]
  exact ⟨rfl, rfl, Nat.le_add_right _ _⟩

theorem receiveData_kept (source : Endpoint) (r : DecodeResult) :
    Kept bus (bus.receiveData env source r).1 := by
  refine receiveData_elim env ?_ ?_ ?_
  · intro _
    exact dispatch_kept env bus source r
  · intro _
    exact ⟨rfl, rfl, Nat.le_refl _⟩
  · intro _
    obtain ⟨hnode, hsize, hseq⟩ := dispatch_kept env (bus.afterCheck env r) source r
    exact ⟨hnode, hsize, hseq⟩

theorem onReceived_kept (source : Endpoint) (data : Bytes) :
    Kept bus (bus.onReceived env source data).1 := by
  have hsame : ∀ engine, Kept bus { bus with qosEngine := engine } :=
    fun _ => ⟨rfl, rfl, Nat.le_refl _⟩
  generalize hr : MessageCodec.decode bus.sizeT data = r
  refine onReceived_elim env hr ?_ ?_ ?_ ?_ ?_ ?_ ?_
  · exact fun _ => hsame _
  · exact fun _ _ => hsame _
  · exact fun _ _ => hsame _
  · exact fun _ _ => hsame _
  · exact fun _ _ => hsame _
  · exact fun _ _ => hsame _
  · exact fun _ _ => receiveData_kept env bus source r

theorem exec_kept (call : Call) : Kept bus (bus.exec env call).1 := by
  cases call with
  | received source data => exact onReceived_kept env bus source data
  | tick =>
      obtain ⟨n, _, _, _, h⟩ := tick_shape env bus
      simp only [exec, h]
      exact ⟨rfl, rfl, Nat.le_add_right _ _⟩
  | publish topic payload qos flags =>
      obtain ⟨_, n, _, h⟩ := publish_shape env bus topic payload qos flags
      simp only [exec, h]
      exact ⟨rfl, rfl, by simp only; omega⟩
  | sendRequest service payload qos corrId timeout =>
      obtain ⟨n, _, h⟩ := sendRequest_shape env bus service payload qos corrId timeout
      simp only [exec, h]
      exact ⟨rfl, rfl, Nat.le_add_right _ _⟩
  | deliverWill topic payload retainWill sourceId =>
      obtain ⟨_, h⟩ := deliverWill_shape env bus topic payload retainWill sourceId
      simp only [exec, h]
      exact ⟨rfl, rfl, Nat.le_add_right _ _⟩
  | createSubscriber pattern callback qos => exact ⟨rfl, rfl, Nat.le_refl _⟩
  | stop =>
      simp only [exec, stop]
      split
      · exact ⟨rfl, rfl, Nat.le_refl _⟩
      · exact ⟨rfl, rfl, Nat.le_refl _⟩
  | _ => exact ⟨rfl, rfl, Nat.le_refl _⟩

/-! ### Windows -/

/-- Source and number of a frame that goes through the duplicate check. -/
def checkedKey (sz : SizeT) (data : Bytes) : Option (UInt16 × UInt32) :=
  let r := MessageCodec.decode sz data
  if r.valid = true ∧ isAcknowledgement (MessageType.ofByte r.header.msgType) = false ∧
      QoSLevel.ofByte r.header.qosLevel = .exactlyOnce then
    some (r.header.sourceId, r.header.sequenceId)
  else none

/-- Repeating requests only sends frames. -/
theorem dispatchAll_frames (jobs : List RetryJob) :
    ∀ effect ∈ (dispatchAll env jobs bus).2, ∃ n dest slices, effect = .frame n dest slices := by
  induction jobs generalizing bus with
  | nil => simp [dispatchAll]
  | cons job rest ih =>
      intro effect hmem
      simp only [dispatchAll, List.mem_append] at hmem
      obtain hmem | hmem := hmem
      · obtain ⟨_, ep, stamp, rfl⟩ := mem_dispatchRequest env bus hmem
        exact ⟨_, _, _, rfl⟩
      · exact ih _ effect hmem

/-- The loop over the targets sends frames and registers them. -/
theorem publishTo_effects (topic payload : Bytes) (qos : QoSProfile) (flags : UInt8)
    (eps : List Endpoint) : ∀ effect ∈ (publishTo env topic payload qos flags eps bus).2,
      (∃ n dest slices, effect = .frame n dest slices) ∨
        ∃ q dest data qos', effect = .register q dest data qos' := by
  induction eps generalizing bus with
  | nil => exact fun _ hmem => absurd hmem List.not_mem_nil
  | cons ep rest ih =>
      intro effect hmem
      simp only [publishTo, List.mem_append] at hmem
      obtain hmem | hmem := hmem
      · simp only [publishOne] at hmem
        split at hmem
        · obtain rfl | hmem := List.mem_cons.mp hmem
          · exact Or.inl ⟨_, _, _, rfl⟩
          · exact Or.inr ⟨_, _, _, _, List.mem_singleton.mp hmem⟩
        · exact Or.inl ⟨_, _, _, List.mem_singleton.mp hmem⟩
      · exact ih _ effect hmem

/-- The local delivery of a publish is of the message itself. -/
theorem route_mem_publish {topic payload : Bytes} {qos : QoSProfile} {flags : UInt8}
    {msg : ReceivedMessage} {callbacks : List Nat}
    (h : .route msg callbacks ∈ (bus.publish env topic payload qos flags).2) :
    msg = { topic, payload, sourceId := bus.nodeId,
            sequenceId := UInt32.ofNat bus.seqCounter } := by
  obtain heq | hmem := List.mem_cons.mp h
  · exact (Effect.route.inj heq).1
  · obtain ⟨_, _, _, heq⟩ | ⟨_, _, _, _, heq⟩ :=
      publishTo_effects env _ topic payload qos flags _ _ hmem
    · cases heq
    · cases heq

/-! ### Routing of a received frame -/

end EmbedMq.MessageBus
