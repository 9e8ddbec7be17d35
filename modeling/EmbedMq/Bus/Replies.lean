import EmbedMq.Bus.Frame
import EmbedMq.Codec.RoundTrip

/-!
# Requests and replies at one bus

The comment on the REPLY branch says that a reliable REPLY is acknowledged even if it
is a duplicate, because the earlier ACK may have been lost. The branch stands behind
the duplicate check of level ExactlyOnce, though, which drops a frame whose number is
marked in the window of its source.

The second half says what a call does for requests: which REQUEST and REPLY frames it
sends, which handler it runs, which promise it fulfils with a value, and what the three
tables `pendingRequests`, `replyCache` and `serviceHandlers` hold afterwards.
-/

namespace EmbedMq.MessageBus

open MessageCodec (DecodeResult EncodeArgs Encodable encode decode)

/-! ### The acknowledgement of a REPLY -/

/-- The call sends one packet: an ACK with this number, to this endpoint. -/
def AckSent (effects : List Effect) (dest : Endpoint) (seqId : UInt32) : Prop :=
  ∃ frame, effects.filterMap Effect.packet = [(dest, frame)] ∧ ∀ sz : SizeT,
    (decode sz frame).valid = true ∧ MessageType.ofByte (decode sz frame).header.msgType = .ack ∧
    (decode sz frame).header.sequenceId = seqId

/-- The number is marked in the window of its source. -/
def Seen (bus : MessageBus) (sourceId : UInt16) (seqId : UInt32) : Prop :=
  ∃ w, bus.qosEngine.windows.lookup sourceId = some w ∧ w.Marked seqId

variable (env : Env) (bus : MessageBus)

theorem isDuplicate_iff_seen (sourceId : UInt16) (seqId : UInt32) :
    (bus.qosEngine.isDuplicate sourceId seqId env.now).1 = true ↔ bus.Seen sourceId seqId := by
  cases hwindow : bus.qosEngine.windows.lookup sourceId with
  | none =>
      rw [QoSEngine.isDuplicate_of_no_window _ _ _ hwindow]
      constructor
      · simp
      · rintro ⟨w, hw, _⟩
        cases hwindow.symm.trans hw
  | some w =>
      rw [QoSEngine.isDuplicate_iff_marked _ _ _ hwindow]
      constructor
      · exact fun hmarked => ⟨w, hwindow, hmarked⟩
      · rintro ⟨w', hw', hmarked⟩
        obtain rfl := Option.some.inj (hwindow.symm.trans hw')
        exact hmarked

theorem ackSent_sendAck (dest : Endpoint) (seqId : UInt32) {more : List Effect}
    (hmore : more.filterMap Effect.packet = []) :
    AckSent (bus.sendAck env dest seqId :: more) dest seqId := by
  refine ⟨encode (bus.controlArgs .ack seqId) (env.stamp seqId), ?_, ?_⟩
  · simp [sendAck, sendCtrl, Effect.packet, hmore]
  · intro sz
    have henc : Encodable (bus.controlArgs .ack seqId) := ⟨Nat.zero_le _, Nat.zero_le _⟩
    rw [MessageCodec.decode_encode henc]
    exact ⟨rfl, MessageCodec.encodedHeader_type _ _, rfl⟩

variable {env bus} {source : Endpoint} {data : Bytes} {r : DecodeResult}

/-- Past the duplicate check, a REPLY is acknowledged. -/
theorem ackSent_completeRequest
    (hlevel : QoSLevel.reliable ≤ QoSLevel.ofByte r.header.qosLevel) :
    AckSent (bus.completeRequest env source r).2 source r.header.sequenceId := by
  simp only [completeRequest, if_pos hlevel]
  split
  · exact ackSent_sendAck env bus source _ rfl
  · exact ackSent_sendAck env bus source _ rfl

/-- What a REPLY leads to, by the duplicate check. -/
theorem onReceived_reply (hr : decode bus.sizeT data = r) (hvalid : r.valid = true)
    (htype : MessageType.ofByte r.header.msgType = .reply) :
    (bus.onReceived env source data).2 =
      if QoSLevel.ofByte r.header.qosLevel = .exactlyOnce then
        if (bus.qosEngine.isDuplicate r.header.sourceId r.header.sequenceId env.now).1 then []
        else ((bus.afterCheck env r).completeRequest env source r).2
      else (bus.completeRequest env source r).2 := by
  have hdata : isAcknowledgement (MessageType.ofByte r.header.msgType) = false := by rw [htype]; rfl
  have hanswer : bus.publishAnswer env source r = [] := by simp only [publishAnswer, htype]
  have hdispatch (b : MessageBus) : b.dispatch env source r = b.completeRequest env source r := by
    simp only [dispatch, htype]
  rw [onReceived_data env hr hvalid hdata]
  by_cases hlevel : QoSLevel.ofByte r.header.qosLevel = .exactlyOnce
  · rw [if_pos hlevel]
    cases hdup : (bus.qosEngine.isDuplicate r.header.sourceId r.header.sequenceId env.now).1 with
    | true =>
        rw [receiveData_duplicate env hlevel hdup, hanswer]
        rfl
    | false =>
        rw [receiveData_fresh env hlevel hdup, hanswer, hdispatch]
        rfl
  · rw [if_neg hlevel, receiveData_unchecked env hlevel, hanswer, hdispatch]
    rfl

/-- A reliable REPLY is acknowledged, except at level ExactlyOnce if its number is marked in
the window of its source. -/
theorem reply_acknowledged_iff (env : Env) (bus : MessageBus) (source : Endpoint) (data : Bytes)
    {r : DecodeResult} (hr : decode bus.sizeT data = r) (hvalid : r.valid = true)
    (htype : MessageType.ofByte r.header.msgType = .reply)
    (hlevel : QoSLevel.ofByte r.header.qosLevel = .reliable ∨
      QoSLevel.ofByte r.header.qosLevel = .exactlyOnce) :
    AckSent (bus.onReceived env source data).2 source r.header.sequenceId ↔
      QoSLevel.ofByte r.header.qosLevel = .reliable ∨
        ¬ bus.Seen r.header.sourceId r.header.sequenceId := by
  have hle : QoSLevel.reliable ≤ QoSLevel.ofByte r.header.qosLevel := by
    obtain h | h := hlevel
    all_goals
      rw [h]
      decide
  rw [onReceived_reply hr hvalid htype, ← isDuplicate_iff_seen env bus, Bool.not_eq_true]
  obtain hreliable | honce := hlevel
  · rw [if_neg (by rw [hreliable]; decide)]
    exact iff_of_true (ackSent_completeRequest hle) (Or.inl hreliable)
  · have hnot : QoSLevel.ofByte r.header.qosLevel ≠ .reliable := by rw [honce]; decide
    rw [if_pos honce]
    cases (bus.qosEngine.isDuplicate r.header.sourceId r.header.sequenceId env.now).1 with
    | true =>
        refine iff_of_false ?_ ?_
        · rintro ⟨frame, hpackets, _⟩
          cases hpackets
        · rintro (h | h)
          · exact hnot h
          · cases h
    | false => exact iff_of_true (ackSent_completeRequest hle) (Or.inr rfl)

/-! ### A REPLY that arrives twice -/

/-- The surroundings of a call at time 0. -/
def quietEnv : Env where
  now := 0
  sent _ := 0
  stamp _ := 0
  active _ := true
  invoke _ _ := []

/-- The bus of a requester. -/
def requester : MessageBus := { nodeId := 1, localHostName := [] }

def provider : Endpoint := { address := [2], transportType := udp }

/-- A REPLY of another node at a given level. -/
def replyFrame (level : QoSLevel) : Bytes :=
  encode { type := .reply, sourceId := 2, destId := 0, topic := [], payload := [], qos := { level },
           sequenceId := 5, correlationId := 7 } 0

/-- The requester after it has received the frame once. -/
def answeredOnce (level : QoSLevel) : MessageBus :=
  (requester.onReceived quietEnv provider (replyFrame level)).1

/-- A repetition of a REPLY at level Reliable is acknowledged. -/
theorem reply_acknowledged_iff_reliable :
    AckSent ((answeredOnce .reliable).onReceived quietEnv provider (replyFrame .reliable)).2
      provider 5 := by
  have hnumber : (decode (answeredOnce .reliable).sizeT
      (replyFrame .reliable)).header.sequenceId = 5 := by decide +kernel
  have hlevel : QoSLevel.ofByte (decode (answeredOnce .reliable).sizeT
      (replyFrame .reliable)).header.qosLevel = .reliable := by decide +kernel
  have hiff := reply_acknowledged_iff quietEnv (answeredOnce .reliable) provider
    (replyFrame .reliable) rfl (by decide +kernel) (by decide +kernel) (Or.inl hlevel)
  rw [hnumber] at hiff
  exact hiff.mpr (Or.inl hlevel)

/-- The same frame is received twice at level ExactlyOnce: the second time there is no ACK. -/
theorem reply_not_acknowledged :
    (decode (answeredOnce .exactlyOnce).sizeT (replyFrame .exactlyOnce)).valid = true ∧
    MessageType.ofByte (decode (answeredOnce .exactlyOnce).sizeT
      (replyFrame .exactlyOnce)).header.msgType = .reply ∧
    QoSLevel.ofByte (decode (answeredOnce .exactlyOnce).sizeT
      (replyFrame .exactlyOnce)).header.qosLevel = .exactlyOnce ∧
    ¬ AckSent ((answeredOnce .exactlyOnce).onReceived quietEnv provider
      (replyFrame .exactlyOnce)).2 provider 5 := by
  refine ⟨by decide +kernel, by decide +kernel, by decide +kernel, ?_⟩
  rintro ⟨frame, hpackets, _⟩
  have hnone : ((answeredOnce .exactlyOnce).onReceived quietEnv provider
      (replyFrame .exactlyOnce)).2.filterMap Effect.packet = [] := by decide +kernel
  cases hnone.symm.trans hpackets

/-! ### What a call does for requests -/

theorem replyKey_toNat (sourceId : UInt16) (corrId : UInt32) :
    (replyKey sourceId corrId).toNat = sourceId.toNat * 2 ^ 32 + corrId.toNat := by
  have hsource : sourceId.toNat < 2 ^ 16 := sourceId.toNat_lt
  have hshift : sourceId.toNat * 2 ^ 32 < 2 ^ 64 := by omega
  have hor := Nat.two_pow_add_eq_or_of_lt (i := 32) corrId.toNat_lt sourceId.toNat
  rw [replyKey, UInt64.toNat_or, UInt64.toNat_shiftLeft, UInt16.toNat_toUInt64,
    UInt32.toNat_toUInt64, Nat.shiftLeft_eq]
  change sourceId.toNat * 2 ^ 32 % 2 ^ 64 ||| corrId.toNat = _
  rw [Nat.mod_eq_of_lt hshift, Nat.mul_comm, ← hor]

/-- Different requests have different keys. -/
theorem replyKey_inj {source source' : UInt16} {corrId corrId' : UInt32}
    (h : replyKey source corrId = replyKey source' corrId') :
    source = source' ∧ corrId = corrId' := by
  have hnat := congrArg UInt64.toNat h
  rw [replyKey_toNat, replyKey_toNat] at hnat
  have hcorr := corrId.toNat_lt
  have hcorr' := corrId'.toNat_lt
  constructor
  · apply UInt16.toNat_inj.mp
    omega
  · apply UInt32.toNat_inj.mp
    omega

/-- The name of a service is what follows the prefix in the topic of its requests. -/
theorem serviceName_svcPrefix (service : Bytes) : serviceName (svcPrefix ++ service) = service := by
  simp [serviceName]

/-- A handler that is registered under a service runs for a request. -/
def Invokes (bus : MessageBus) (effects : List Effect) (service payload : Bytes)
    (sourceId : UInt16) (corrId : UInt32) (response : Bytes) : Prop :=
  ∃ handler req, .handle handler req response ∈ effects ∧
    bus.serviceHandlers.lookup service = some handler ∧ req.topic = service ∧
    req.payload = payload ∧ req.sourceId = sourceId ∧ req.correlationId = corrId

/-- The effects that requests are made of. -/
def exchange : Effect → Bool
  | .frame _ _ _ | .settle _ _ | .handle _ _ _ => true
  | _ => false

/-- The tables of requests are the same. -/
structure SameTables (bus after : MessageBus) : Prop where
  pendingRequests : after.pendingRequests = bus.pendingRequests
  replyCache : after.replyCache = bus.replyCache
  serviceHandlers : after.serviceHandlers = bus.serviceHandlers

/-- A received frame means nothing to requests, or it is dispatched. -/
inductive Dispatched (env : Env) (bus : MessageBus) (source : Endpoint) (r : DecodeResult)
    (result : MessageBus × List Effect) : Prop
  | quiet (tables : SameTables bus result.1) (effects : ∀ e ∈ result.2, exchange e = false)
  | dispatched {after : MessageBus} (valid : r.valid = true) (tables : SameTables bus after)
      (state : result.1 = (after.dispatch env source r).1)
      (mem : ∀ e, e ∈ (after.dispatch env source r).2 → e ∈ result.2)
      (of_mem : ∀ e ∈ result.2, exchange e = true → e ∈ (after.dispatch env source r).2)

theorem exchange_publishAnswer :
    ∀ e ∈ bus.publishAnswer env source r, exchange e = false := by
  intro e hmem
  simp only [publishAnswer] at hmem
  split at hmem
  · rw [List.mem_singleton.mp hmem]
    rfl
  · rw [List.mem_singleton.mp hmem]
    rfl
  · exact absurd hmem List.not_mem_nil

theorem receiveData_dispatched (hvalid : r.valid = true) :
    Dispatched env bus source r (bus.receiveData env source r) := by
  have hanswers : ∀ e ∈ bus.publishAnswer env source r, exchange e = true → False := by
    intro e hmem hexchange
    rw [exchange_publishAnswer e hmem] at hexchange
    exact absurd hexchange Bool.false_ne_true
  refine receiveData_elim env ?_ ?_ ?_
  · intro _
    refine .dispatched hvalid ⟨rfl, rfl, rfl⟩ rfl (fun e => List.mem_append_right _) ?_
    intro e hmem hexchange
    obtain hanswer | hmem := List.mem_append.mp hmem
    · exact (hanswers e hanswer hexchange).elim
    · exact hmem
  · intro _
    exact .quiet ⟨rfl, rfl, rfl⟩ exchange_publishAnswer
  · intro _
    have htables : SameTables bus (bus.afterCheck env r) := ⟨rfl, rfl, rfl⟩
    refine .dispatched hvalid htables rfl (fun e => List.mem_append_right _) ?_
    intro e hmem hexchange
    obtain hanswer | hmem := List.mem_append.mp hmem
    · exact (hanswers e hanswer hexchange).elim
    · exact hmem

theorem onReceived_dispatched (env : Env) (bus : MessageBus) (source : Endpoint) (data : Bytes) :
    Dispatched env bus source (decode bus.sizeT data) (bus.onReceived env source data) := by
  refine onReceived_elim env rfl ?_ ?_ ?_ ?_ ?_ ?_ ?_
  · exact fun _ => .quiet ⟨rfl, rfl, rfl⟩ (fun _ hmem => absurd hmem List.not_mem_nil)
  · exact fun _ _ => .quiet ⟨rfl, rfl, rfl⟩ (fun _ hmem => absurd hmem List.not_mem_nil)
  · intro _ _
    refine .quiet ⟨rfl, rfl, rfl⟩ fun e hmem => ?_
    obtain ⟨resend, _, rfl⟩ := List.mem_map.mp hmem
    rfl
  · intro _ _
    refine .quiet ⟨rfl, rfl, rfl⟩ fun e hmem => ?_
    rw [List.mem_singleton.mp hmem]
    rfl
  · intro _ _
    refine .quiet ⟨rfl, rfl, rfl⟩ fun e hmem => ?_
    rw [List.mem_singleton.mp hmem]
    rfl
  · exact fun _ _ => .quiet ⟨rfl, rfl, rfl⟩ (fun _ hmem => absurd hmem List.not_mem_nil)
  · exact fun hvalid _ => receiveData_dispatched hvalid

/-- How the response to a request is found: in the cache, or by running the handler. -/
inductive Responds (bus : MessageBus) (effects : List Effect) (r : DecodeResult)
    (response : Bytes) :
    Prop
  | cached {cached : CachedReply} (lookup : bus.replyCache.lookup
      (replyKey r.header.sourceId r.header.correlationId) = some cached)
      (same : cached.response = response)
  | invoked (invokes : Invokes bus effects (serviceName r.topic) r.payload r.header.sourceId
      r.header.correlationId response)

theorem sendReply_frame {dest d : Endpoint} {corrId : UInt32} {payload : Bytes} {qos : QoSProfile}
    {registerRetransmit : Bool} {n : Nat} {slices : List Bytes}
    (h : .frame n d slices ∈ (bus.sendReply env dest corrId payload qos registerRetransmit).2) :
    d = dest ∧ ∃ stamp, slices.flatten =
      encode (bus.replyArgs payload qos corrId (UInt32.ofNat n)) stamp := by
  have honly : Effect.frame n d slices = .frame bus.seqCounter dest
      [encode (bus.replyArgs payload qos corrId (UInt32.ofNat bus.seqCounter))
        (env.stamp (UInt32.ofNat bus.seqCounter))] := by
    simp only [sendReply] at h
    split at h
    · obtain h | h := List.mem_cons.mp h
      · exact h
      · cases List.mem_singleton.mp h
    · exact List.mem_singleton.mp h
  obtain ⟨rfl, rfl, rfl⟩ := Effect.frame.inj honly
  exact ⟨rfl, _, List.flatten_singleton⟩

theorem sendReply_replyCache (dest : Endpoint) (corrId : UInt32) (payload : Bytes)
    (qos : QoSProfile) (registerRetransmit : Bool) :
    (bus.sendReply env dest corrId payload qos registerRetransmit).1.replyCache =
      bus.replyCache := by
  obtain ⟨_, hshape⟩ := sendReply_shape env bus dest corrId payload qos registerRetransmit
  rw [hshape]

/-- A REPLY goes to the endpoint that the REQUEST came from, with its correlation id. -/
theorem serveRequest_frame {n : Nat} {dest : Endpoint} {slices : List Bytes}
    (h : .frame n dest slices ∈ (bus.serveRequest env source r).2) :
    dest = source ∧ ∃ (b : MessageBus) (response : Bytes) (qos : QoSProfile) (stamp : UInt64),
      slices.flatten = encode (b.replyArgs response qos r.header.correlationId (UInt32.ofNat n))
        stamp ∧ Responds bus (bus.serveRequest env source r).2 r response := by
  cases hcached : bus.replyCache.lookup (replyKey r.header.sourceId r.header.correlationId) with
  | some cached =>
      simp only [serveRequest, hcached] at h
      obtain ⟨rfl, stamp, hdata⟩ := sendReply_frame h
      exact ⟨rfl, bus, _, _, stamp, hdata, .cached hcached rfl⟩
  | none =>
      cases hhandler : bus.serviceHandlers.lookup (serviceName r.topic) with
      | none =>
          simp only [serveRequest, hcached, hhandler] at h
          exact absurd h List.not_mem_nil
      | some handler =>
          simp only [serveRequest, hcached, hhandler] at h ⊢
          obtain h | h := List.mem_cons.mp h
          · cases h
          · obtain ⟨rfl, stamp, hdata⟩ := sendReply_frame h
            refine ⟨rfl, _, _, _, stamp, hdata, .invoked ?_⟩
            exact ⟨handler, _, List.mem_cons_self, hhandler, rfl, rfl, rfl, rfl⟩

/-- An entry of the cache is the response of a handler that has run. -/
theorem serveRequest_replyCache {key : UInt64} {cached : CachedReply}
    (h : (bus.serveRequest env source r).1.replyCache.lookup key = some cached) :
    bus.replyCache.lookup key = some cached ∨
      (key = replyKey r.header.sourceId r.header.correlationId ∧
        Invokes bus (bus.serveRequest env source r).2 (serviceName r.topic) r.payload
          r.header.sourceId r.header.correlationId cached.response) := by
  cases hcached : bus.replyCache.lookup (replyKey r.header.sourceId r.header.correlationId) with
  | some found =>
      simp only [serveRequest, hcached, sendReply_replyCache] at h
      exact Or.inl h
  | none =>
      cases hhandler : bus.serviceHandlers.lookup (serviceName r.topic) with
      | none =>
          simp only [serveRequest, hcached, hhandler] at h
          exact Or.inl h
      | some handler =>
          simp only [serveRequest, hcached, hhandler, sendReply_replyCache,
            Table.lookup_insert_eq] at h ⊢
          split at h
          · rename_i hkey
            obtain rfl := Option.some.inj h
            exact Or.inr ⟨hkey, handler, _, List.mem_cons_self, hhandler, rfl, rfl, rfl, rfl⟩
          · exact Or.inl h

/-- A REQUEST goes out with the service, the payload and the correlation id it is made with. -/
theorem dispatchRequest_frame {service payload : Bytes} {qos : QoSProfile} {corrId : UInt32}
    {n : Nat} {dest : Endpoint} {slices : List Bytes}
    (h : .frame n dest slices ∈ (bus.dispatchRequest env service payload qos corrId).2.2) :
    ∃ stamp, slices.flatten =
      encode (bus.requestArgs service payload qos corrId (UInt32.ofNat n)) stamp := by
  obtain ⟨_, _, stamp, heq⟩ := mem_dispatchRequest env bus h
  obtain ⟨rfl, _, rfl⟩ := Effect.frame.inj heq
  exact ⟨stamp, List.flatten_singleton⟩

theorem dispatchAll_frame {jobs : List RetryJob} {n : Nat} {dest : Endpoint} {slices : List Bytes}
    (h : .frame n dest slices ∈ (dispatchAll env jobs bus).2) :
    ∃ job ∈ jobs, ∃ (b : MessageBus) (stamp : UInt64), slices.flatten =
      encode (b.requestArgs job.service job.payload job.qos job.corrId (UInt32.ofNat n)) stamp := by
  induction jobs generalizing bus with
  | nil => exact absurd h List.not_mem_nil
  | cons job rest ih =>
      obtain h | h := List.mem_append.mp h
      · obtain ⟨stamp, hdata⟩ := dispatchRequest_frame h
        exact ⟨job, List.mem_cons_self, bus, stamp, hdata⟩
      · obtain ⟨other, hmem, hrest⟩ := ih h
        exact ⟨other, List.mem_cons_of_mem _ hmem, hrest⟩

/-- A request that is made by the call, or that is pending and due. -/
inductive Issues (bus : MessageBus) (call : Call) (service payload : Bytes) (corrId : UInt32) : Prop
  | made {qos : QoSProfile} {timeout : Int}
      (call : call = .sendRequest service payload qos corrId timeout)
  | pending {key : UInt32} {pr : PendingRequest} (call : call = .tick)
      (lookup : bus.pendingRequests.lookup key = some pr) (service : pr.service = service)
      (payload : pr.payload = payload) (corrId : pr.corrId = corrId)

/-- What a call does for requests, by effect. -/
def Exchanges (bus : MessageBus) (call : Call) (effects : List Effect) : Effect → Prop
  | .frame n dest slices =>
      (∃ topic payload qos flags, call = .publish topic payload qos flags) ∨
      (∃ data r, call = .received dest data ∧ decode bus.sizeT data = r ∧ r.valid = true ∧
        MessageType.ofByte r.header.msgType = .request ∧
        ∃ (b : MessageBus) (response : Bytes) (qos : QoSProfile) (stamp : UInt64),
          slices.flatten = encode (b.replyArgs response qos r.header.correlationId (UInt32.ofNat n))
            stamp ∧ Responds bus effects r response) ∨
      (∃ service payload corrId, Issues bus call service payload corrId ∧
        ∃ (b : MessageBus) (qos : QoSProfile) (stamp : UInt64), slices.flatten =
          encode (b.requestArgs service payload qos corrId (UInt32.ofNat n)) stamp)
  | .settle corrId (.value v) =>
      (∃ service payload qos timeout, call = .sendRequest service payload qos corrId timeout ∧
        Invokes bus effects service payload bus.nodeId corrId v) ∨
      (∃ source data r, call = .received source data ∧ decode bus.sizeT data = r ∧
        r.valid = true ∧ MessageType.ofByte r.header.msgType = .reply ∧
        r.header.correlationId = corrId ∧ r.payload = v)
  | _ => True

theorem dispatch_exchanges {after : MessageBus} (hr : decode bus.sizeT data = r)
    (hvalid : r.valid = true) (htables : SameTables bus after) {effects : List Effect}
    (hsub : ∀ e, e ∈ (after.dispatch env source r).2 → e ∈ effects) {e : Effect}
    (hmem : e ∈ (after.dispatch env source r).2) :
    Exchanges bus (.received source data) effects e := by
  cases htype : MessageType.ofByte r.header.msgType with
  | publish =>
      simp only [dispatch, htype, deliverPublish] at hmem
      rw [List.mem_singleton.mp hmem]
      trivial
  | request =>
      have hserve : after.dispatch env source r = after.serveRequest env source r := by
        simp only [dispatch, htype]
      rw [hserve] at hmem hsub
      cases e with
      | frame n dest slices =>
          obtain ⟨rfl, b, response, qos, stamp, hdata, hresponds⟩ := serveRequest_frame hmem
          refine Or.inr (Or.inl
            ⟨data, r, rfl, hr, hvalid, htype, b, response, qos, stamp, hdata, ?_⟩)
          cases hresponds with
          | cached hlookup hsame =>
              rw [htables.replyCache] at hlookup
              exact .cached hlookup hsame
          | invoked hinvokes =>
              obtain ⟨handler, req, hhandle, hhandler, hrest⟩ := hinvokes
              rw [htables.serviceHandlers] at hhandler
              exact .invoked ⟨handler, req, hsub _ hhandle, hhandler, hrest⟩
      | settle corrId outcome =>
          -- Serving a request fulfils no promise.
          exfalso
          have hnone : ∀ (b : MessageBus) (dest : Endpoint) (c : UInt32) (p : Bytes)
              (q : QoSProfile) (again : Bool),
              .settle corrId outcome ∉ (b.sendReply env dest c p q again).2 := by
            intro b dest c p q again h
            simp only [sendReply] at h
            split at h <;> simp at h
          simp only [serveRequest] at hmem
          split at hmem
          · exact hnone _ _ _ _ _ _ hmem
          · split at hmem
            · obtain h | h := List.mem_cons.mp hmem
              · cases h
              · exact hnone _ _ _ _ _ _ h
            · exact absurd hmem List.not_mem_nil
      | _ => trivial
  | reply =>
      have hdone : after.dispatch env source r = after.completeRequest env source r := by
        simp only [dispatch, htype]
      rw [hdone] at hmem
      have hcases : exchange e = false ∨
          e = .settle r.header.correlationId (.value r.payload) := by
        simp only [completeRequest] at hmem
        split at hmem <;> split at hmem <;> simp at hmem
        · obtain rfl | rfl := hmem
          · exact Or.inl rfl
          · exact Or.inr rfl
        · exact Or.inr hmem
        · rw [hmem]
          exact Or.inl rfl
      obtain hquiet | rfl := hcases
      · cases e with
        | frame n dest slices => cases hquiet
        | settle corrId outcome => cases hquiet
        | _ => trivial
      · exact Or.inr ⟨source, data, r, rfl, hr, hvalid, htype, rfl, rfl⟩
  | _ =>
      simp only [dispatch, htype] at hmem
      exact absurd hmem List.not_mem_nil

theorem exchanges_of_quiet {call : Call} {effects : List Effect} {e : Effect}
    (h : exchange e = false) : Exchanges bus call effects e := by
  cases e with
  | frame n dest slices => cases h
  | settle corrId outcome => cases h
  | _ => trivial

theorem onReceived_exchanges (env : Env) (bus : MessageBus) (source : Endpoint) (data : Bytes) :
    ∀ e ∈ (bus.onReceived env source data).2,
      Exchanges bus (.received source data) (bus.onReceived env source data).2 e := by
  intro e hmem
  cases onReceived_dispatched env bus source data with
  | quiet _ heffects => exact exchanges_of_quiet (heffects e hmem)
  | dispatched hvalid htables _ hsub hof =>
      cases hexchange : exchange e with
      | false => exact exchanges_of_quiet hexchange
      | true => exact dispatch_exchanges rfl hvalid htables hsub (hof e hmem hexchange)

theorem sendRequest_exchanges (env : Env) (bus : MessageBus) (service payload : Bytes)
    (qos : QoSProfile) (corrId : UInt32) (timeoutOverride : Int) :
    ∀ e ∈ (bus.sendRequest env service payload qos corrId timeoutOverride).2,
      Exchanges bus (.sendRequest service payload qos corrId timeoutOverride)
        (bus.sendRequest env service payload qos corrId timeoutOverride).2 e := by
  intro e hmem
  have hframes : ∀ b : MessageBus, e ∈ (b.dispatchRequest env service payload qos corrId).2.2 →
      Exchanges bus (.sendRequest service payload qos corrId timeoutOverride)
        (bus.sendRequest env service payload qos corrId timeoutOverride).2 e := by
    intro b h
    obtain ⟨_, _, _, rfl⟩ := mem_dispatchRequest env b h
    obtain ⟨stamp, hdata⟩ := dispatchRequest_frame h
    exact Or.inr (Or.inr ⟨service, payload, corrId, .made rfl, b, qos, stamp, hdata⟩)
  cases hhandler : bus.serviceHandlers.lookup service with
  | some handler =>
      simp only [sendRequest, hhandler] at hmem ⊢
      obtain rfl | hmem := List.mem_cons.mp hmem
      · trivial
      · rw [List.mem_singleton.mp hmem]
        exact Or.inl ⟨service, payload, qos, timeoutOverride, rfl, handler, _, List.mem_cons_self,
          hhandler, rfl, rfl, rfl, rfl⟩
  | none =>
      simp only [sendRequest, hhandler] at hmem
      split at hmem
      · obtain hmem | hmem := List.mem_append.mp hmem
        · exact hframes _ hmem
        · rw [List.mem_singleton.mp hmem]
          trivial
      · exact hframes _ hmem

theorem tick_exchanges (env : Env) (bus : MessageBus) :
    ∀ e ∈ (bus.tick env).2, Exchanges bus .tick (bus.tick env).2 e := by
  intro e hmem
  have hcopy := hmem
  simp only [tick, tickEngine, List.mem_append, List.mem_map, List.mem_singleton] at hcopy
  obtain ((((⟨resend, _, rfl⟩ | ⟨resend, _, rfl⟩) | rfl) | ⟨_, _, rfl⟩) | hframe) |
    ⟨_, _, rfl⟩ := hcopy
  · trivial
  · trivial
  · trivial
  · trivial
  · obtain ⟨n, dest, slices, rfl⟩ := dispatchAll_frames _ _ _ _ hframe
    obtain ⟨job, hjob, b, stamp, hdata⟩ := dispatchAll_frame hframe
    obtain ⟨⟨key, pr⟩, hlisted, hdue⟩ := List.mem_filterMap.mp hjob
    have hlookup : bus.pendingRequests.lookup key = some pr :=
      Table.mem_toList_iff.mp hlisted
    split at hdue
    · obtain rfl := Option.some.inj hdue
      exact Or.inr (Or.inr ⟨_, _, _, .pending rfl hlookup rfl rfl rfl, b, _, stamp, hdata⟩)
    · cases hdue
  · trivial

/-- Every frame of a call is a message, a REPLY to the frame it was called with, or a REQUEST;
a promise is fulfilled with the response of a local handler or the payload of a REPLY. -/
theorem exec_exchanges (env : Env) (bus : MessageBus) (call : Call) :
    ∀ e ∈ (bus.exec env call).2, Exchanges bus call (bus.exec env call).2 e := by
  intro e hmem
  cases call with
  | publish topic payload qos flags =>
      obtain rfl | hmem := List.mem_cons.mp hmem
      · trivial
      · obtain ⟨_, _, _, rfl⟩ | ⟨_, _, _, _, rfl⟩ := publishTo_effects env _ _ _ _ _ _ _ hmem
        · exact Or.inl ⟨topic, payload, qos, flags, rfl⟩
        · trivial
  | received source data => exact onReceived_exchanges env bus source data e hmem
  | sendRequest service payload qos corrId timeout =>
      exact sendRequest_exchanges env bus service payload qos corrId timeout e hmem
  | tick => exact tick_exchanges env bus e hmem
  | deliverWill topic payload retainWill sourceId =>
      simp only [exec, deliverWill] at hmem
      rw [List.mem_singleton.mp hmem]
      trivial
  | createSubscriber pattern callback qos =>
      simp only [exec, createSubscriber] at hmem
      split at hmem
      · obtain ⟨_, _, rfl⟩ := Option.map_eq_some_iff.mp (Option.mem_toList.mp hmem)
        trivial
      · exact absurd hmem List.not_mem_nil
  | stop =>
      simp only [exec, stop] at hmem
      split at hmem
      · obtain ⟨_, _, rfl⟩ := List.mem_map.mp hmem
        trivial
      · exact absurd hmem List.not_mem_nil
  | _ => exact absurd hmem List.not_mem_nil

/-! ### The tables of requests -/

/-- An entry that is as it was made, up to the time of its next retry. -/
def SameRequest (old pr : PendingRequest) : Prop :=
  pr.service = old.service ∧ pr.payload = old.payload ∧ pr.corrId = old.corrId ∧
    pr.deadline = old.deadline

theorem sendRequest_pendingRequests {service payload : Bytes} {qos : QoSProfile}
    {corrId key : UInt32}
    {timeoutOverride : Int} {pr : PendingRequest}
    (h : (bus.sendRequest env service payload qos corrId timeoutOverride).1.pendingRequests.lookup
      key = some pr) :
    bus.pendingRequests.lookup key = some pr ∨
      (key = corrId ∧ pr = pendingRequest env service payload qos corrId timeoutOverride) := by
  cases hhandler : bus.serviceHandlers.lookup service with
  | some handler =>
      simp only [sendRequest, hhandler] at h
      exact Or.inl h
  | none =>
      simp only [sendRequest, hhandler] at h
      let made := pendingRequest env service payload qos corrId timeoutOverride
      obtain ⟨n, hshape⟩ := dispatchRequest_shape env
        { bus with pendingRequests := bus.pendingRequests.insert corrId made } service payload qos
        corrId
      rw [hshape] at h
      -- The entry is made, and perhaps removed at once.
      have hinserted : (bus.pendingRequests.insert corrId made).lookup key = some pr := by
        split at h
        · rw [Table.lookup_erase_eq] at h
          split at h
          · cases h
          · exact h
        · exact h
      rw [Table.lookup_insert_eq] at hinserted
      split at hinserted
      · rename_i hkey
        exact Or.inr ⟨hkey, (Option.some.inj hinserted).symm⟩
      · exact Or.inl hinserted

theorem tick_tables (env : Env) (bus : MessageBus) :
    (bus.tick env).1.pendingRequests = (bus.sweepRequests env).pendingRequests ∧
      (bus.tick env).1.replyCache = (bus.expireReplyCache env).replyCache ∧
      (bus.tick env).1.serviceHandlers = bus.serviceHandlers := by
  simp only [tick]
  obtain ⟨n, hshape⟩ := dispatchAll_shape env
    (sweepRequests env (expireReplyCache env
      { (bus.tickEngine env).1 with
        retainedStore := (bus.tickEngine env).1.retainedStore.expire env.now }))
    (retryJobs env (expireReplyCache env
      { (bus.tickEngine env).1 with
        retainedStore := (bus.tickEngine env).1.retainedStore.expire env.now }))
  rw [hshape]
  exact ⟨rfl, rfl, rfl⟩

theorem tick_pendingRequests {key : UInt32} {pr : PendingRequest}
    (h : (bus.tick env).1.pendingRequests.lookup key = some pr) :
    ∃ old, bus.pendingRequests.lookup key = some old ∧ SameRequest old pr := by
  rw [(tick_tables env bus).1] at h
  obtain ⟨old, hold, hkept⟩ :=
    Option.bind_eq_some_iff.mp ((Table.lookup_sweep _ _ _).symm.trans h)
  refine ⟨old, hold, ?_⟩
  split at hkept
  · cases hkept
  · split at hkept
    all_goals
      obtain rfl := Option.some.inj hkept
      exact ⟨rfl, rfl, rfl, rfl⟩

theorem dispatch_pendingRequests {key : UInt32} {pr : PendingRequest}
    (h : (bus.dispatch env source r).1.pendingRequests.lookup key = some pr) :
    bus.pendingRequests.lookup key = some pr := by
  cases htype : MessageType.ofByte r.header.msgType with
  | publish =>
      simp only [dispatch, htype, deliverPublish] at h
      obtain ⟨_, hshape⟩ := retain_shape env bus r.header.flags _ 0
      rw [hshape] at h
      exact h
  | request =>
      obtain ⟨_, _, _, hshape⟩ := serveRequest_shape env bus source r
      simp only [dispatch, htype, hshape] at h
      exact h
  | reply =>
      simp only [dispatch, htype, completeRequest] at h
      split at h
      · rw [Table.lookup_erase_eq] at h
        split at h
        · cases h
        · exact h
      · exact h
  | _ =>
      simp only [dispatch, htype] at h
      exact h

/-- An entry of `pendingRequests` keeps what it was made with. -/
theorem exec_pendingRequests {call : Call} {key : UInt32} {pr : PendingRequest}
    (h : (bus.exec env call).1.pendingRequests.lookup key = some pr) :
    (∃ old, bus.pendingRequests.lookup key = some old ∧ SameRequest old pr) ∨
    ∃ service payload qos timeout, call = .sendRequest service payload qos key timeout ∧
      pr = pendingRequest env service payload qos key timeout := by
  have hkept (hb : bus.pendingRequests.lookup key = some pr) :
      ∃ old, bus.pendingRequests.lookup key = some old ∧ SameRequest old pr :=
    ⟨pr, hb, rfl, rfl, rfl, rfl⟩
  cases call with
  | publish topic payload qos flags =>
      obtain ⟨_, _, _, hshape⟩ := publish_shape env bus topic payload qos flags
      simp only [exec, hshape] at h
      exact Or.inl (hkept h)
  | received source data =>
      refine Or.inl ?_
      cases onReceived_dispatched env bus source data with
      | quiet htables _ =>
          rw [← htables.pendingRequests] at hkept ⊢
          exact hkept h
      | dispatched _ htables hstate _ _ =>
          rw [exec, hstate] at h
          have hbefore := dispatch_pendingRequests h
          rw [htables.pendingRequests] at hbefore
          exact hkept hbefore
  | sendRequest service payload qos corrId timeout =>
      obtain hold | ⟨rfl, hmade⟩ := sendRequest_pendingRequests h
      · exact Or.inl (hkept hold)
      · exact Or.inr ⟨service, payload, qos, timeout, rfl, hmade⟩
  | cancelPendingRequest corrId =>
      have herased : (bus.pendingRequests.erase corrId).lookup key = some pr := h
      rw [Table.lookup_erase_eq] at herased
      split at herased
      · cases herased
      · exact Or.inl (hkept herased)
  | tick => exact Or.inl (tick_pendingRequests h)
  | deliverWill topic payload retainWill sourceId =>
      obtain ⟨_, hshape⟩ := deliverWill_shape env bus topic payload retainWill sourceId
      simp only [exec, hshape] at h
      exact Or.inl (hkept h)
  | stop =>
      simp only [exec, stop] at h
      split at h
      · cases h
      · exact Or.inl (hkept h)
  | _ => exact Or.inl (hkept h)

/-- An entry of `replyCache` is the response of a handler that has run for a REQUEST. -/
theorem exec_replyCache {call : Call} {key : UInt64} {cached : CachedReply}
    (h : (bus.exec env call).1.replyCache.lookup key = some cached) :
    bus.replyCache.lookup key = some cached ∨
    ∃ source data r, call = .received source data ∧ decode bus.sizeT data = r ∧ r.valid = true ∧
      MessageType.ofByte r.header.msgType = .request ∧
      key = replyKey r.header.sourceId r.header.correlationId ∧
      Invokes bus (bus.exec env call).2 (serviceName r.topic) r.payload r.header.sourceId
        r.header.correlationId cached.response := by
  cases call with
  | publish topic payload qos flags =>
      obtain ⟨_, _, _, hshape⟩ := publish_shape env bus topic payload qos flags
      simp only [exec, hshape] at h
      exact Or.inl h
  | received source data =>
      cases onReceived_dispatched env bus source data with
      | quiet htables _ =>
          rw [← htables.replyCache]
          exact Or.inl h
      | @dispatched after hvalid htables hstate hsub _ =>
          rw [exec, hstate] at h
          rw [← htables.replyCache]
          cases htype : MessageType.ofByte (decode bus.sizeT data).header.msgType with
          | publish =>
              simp only [dispatch, htype, deliverPublish] at h
              obtain ⟨_, hshape⟩ := retain_shape env after (decode bus.sizeT data).header.flags _ 0
              rw [hshape] at h
              exact Or.inl h
          | request =>
              simp only [dispatch, htype] at h hsub
              obtain hold | ⟨hkey, handler, req, hhandle, hhandler, hrest⟩ :=
                serveRequest_replyCache h
              · exact Or.inl hold
              · rw [htables.serviceHandlers] at hhandler
                exact Or.inr ⟨source, data, _, rfl, rfl, hvalid, htype, hkey, handler, req,
                  hsub _ hhandle, hhandler, hrest⟩
          | reply =>
              obtain ⟨_, hshape⟩ := completeRequest_shape env after source (decode bus.sizeT data)
              simp only [dispatch, htype, hshape] at h
              exact Or.inl h
          | _ =>
              simp only [dispatch, htype] at h
              exact Or.inl h
  | sendRequest service payload qos corrId timeout =>
      obtain ⟨_, _, hshape⟩ := sendRequest_shape env bus service payload qos corrId timeout
      simp only [exec, hshape] at h
      exact Or.inl h
  | tick =>
      rw [exec, (tick_tables env bus).2.1] at h
      obtain ⟨old, hold, hkept⟩ :=
        Option.bind_eq_some_iff.mp ((Table.lookup_sweep _ _ _).symm.trans h)
      split at hkept
      · cases hkept
      · obtain rfl := Option.some.inj hkept
        exact Or.inl hold
  | deliverWill topic payload retainWill sourceId =>
      obtain ⟨_, hshape⟩ := deliverWill_shape env bus topic payload retainWill sourceId
      simp only [exec, hshape] at h
      exact Or.inl h
  | stop =>
      simp only [exec, stop] at h
      split at h
      · exact Or.inl h
      · exact Or.inl h
  | _ => exact Or.inl h

/-- A handler was registered under its service. -/
theorem exec_serviceHandlers {call : Call} {service : Bytes} {handler : Nat}
    (h : (bus.exec env call).1.serviceHandlers.lookup service = some handler) :
    bus.serviceHandlers.lookup service = some handler ∨ call = .createReplier service handler := by
  cases call with
  | publish topic payload qos flags =>
      obtain ⟨_, _, _, hshape⟩ := publish_shape env bus topic payload qos flags
      simp only [exec, hshape] at h
      exact Or.inl h
  | received source data =>
      cases onReceived_dispatched env bus source data with
      | quiet htables _ =>
          rw [← htables.serviceHandlers]
          exact Or.inl h
      | @dispatched after _ htables hstate _ _ =>
          rw [exec, hstate] at h
          rw [← htables.serviceHandlers]
          obtain ⟨_, _, _, _, _, hshape⟩ := dispatch_shape env after source (decode bus.sizeT data)
          rw [hshape] at h
          exact Or.inl h
  | sendRequest s payload qos corrId timeout =>
      obtain ⟨_, _, hshape⟩ := sendRequest_shape env bus s payload qos corrId timeout
      simp only [exec, hshape] at h
      exact Or.inl h
  | tick =>
      rw [exec, (tick_tables env bus).2.2] at h
      exact Or.inl h
  | deliverWill topic payload retainWill sourceId =>
      obtain ⟨_, hshape⟩ := deliverWill_shape env bus topic payload retainWill sourceId
      simp only [exec, hshape] at h
      exact Or.inl h
  | createReplier s other =>
      have hinserted : (bus.serviceHandlers.insert s other).lookup service = some handler := h
      rw [Table.lookup_insert_eq] at hinserted
      split at hinserted
      · rename_i hservice
        obtain rfl := Option.some.inj hinserted
        exact Or.inr (by rw [hservice])
      · exact Or.inl hinserted
  | removeServiceHandler s =>
      have herased : (bus.serviceHandlers.erase s).lookup service = some handler := h
      rw [Table.lookup_erase_eq] at herased
      split at herased
      · cases herased
      · exact Or.inl herased
  | stop =>
      simp only [exec, stop] at h
      split at h
      · exact Or.inl h
      · exact Or.inl h
  | _ => exact Or.inl h

end EmbedMq.MessageBus
