import EmbedMq.Bus.Sending

/-!
# What a call does to the waiting frames

For each sequence number, a call leaves the entry of `pending` as it is, registers
a new one, sends the old one again, takes it out because its ACK or PUBREC has
come, or gives it up. The same holds for `pendingRel`, where an entry is made by a
PUBREC and taken out by a PUBCOMP. These are the only ways in and out.
-/

namespace EmbedMq.MessageBus

open MessageCodec (DecodeResult encode)

/-- The frame that a call received, if it is a valid one of this type and number. -/
def Receives (sz : SizeT) (call : Call) (source : Endpoint) (type : MessageType) (q : UInt32) :
    Prop :=
  ∃ data, call = .received source data ∧ (MessageCodec.decode sz data).valid = true ∧
    MessageType.ofByte (MessageCodec.decode sz data).header.msgType = type ∧
    (MessageCodec.decode sz data).header.sequenceId = q

theorem receives_of_decode {sz : SizeT} {source : Endpoint} {data : Bytes} {r : DecodeResult}
    {type : MessageType} {q : UInt32} (hr : MessageCodec.decode sz data = r)
    (hvalid : r.valid = true) (htype : MessageType.ofByte r.header.msgType = type)
    (hseq : r.header.sequenceId = q) : Receives sz (.received source data) source type q := by
  subst hr
  exact ⟨data, rfl, hvalid, htype, hseq⟩

/-- What becomes of the entry of `pending` under one number. -/
inductive PendingFate (env : Env) (bus : MessageBus) (call : Call) (effects : List Effect)
    (q : UInt32) : Option PendingMsg → Option PendingMsg → Prop
  | kept {entry : Option PendingMsg} : PendingFate env bus call effects q entry entry
  | registered {before : Option PendingMsg} {dest : Endpoint} {data : Bytes} {qos : QoSProfile}
      (h : .register q dest data qos ∈ effects) :
      PendingFate env bus call effects q before (some (QoSEngine.make q data qos dest (env.sent q)))
  | retried {pm : PendingMsg} {now : Int} (h : .resend (QoSEngine.resendOf pm) ∈ effects) :
      PendingFate env bus call effects q (some pm) (some (QoSEngine.retry pm now))
  | answered {before : Option PendingMsg} {source : Endpoint}
      (h : Receives bus.sizeT call source .ack q ∨ Receives bus.sizeT call source .pubrec q) :
      PendingFate env bus call effects q before none
  | abandoned {pm : PendingMsg} {ids : List UInt32} (hcall : call = .tick)
      (hexhausted : QoSEngine.exhausted pm = true) (hids : .abandoned ids ∈ effects)
      (hmem : pm.seqId ∈ ids) : PendingFate env bus call effects q (some pm) none

theorem PendingFate.mono {env : Env} {bus : MessageBus} {call : Call} {effects more : List Effect}
    {q : UInt32} {before after : Option PendingMsg}
    (h : PendingFate env bus call effects q before after)
    (hsub : ∀ effect ∈ effects, effect ∈ more) :
    PendingFate env bus call more q before after := by
  cases h with
  | kept => exact .kept
  | registered h => exact .registered (hsub _ h)
  | retried h => exact .retried (hsub _ h)
  | answered h => exact .answered h
  | abandoned hcall hexhausted hids hmem => exact .abandoned hcall hexhausted (hsub _ hids) hmem

variable (env : Env) (bus : MessageBus)

/-! ### Ways into and out of `pending` -/

theorem publishTo_pending (topic payload : Bytes) (qos : QoSProfile) (flags : UInt8)
    (eps : List Endpoint) (q : UInt32) :
    (publishTo env topic payload qos flags eps bus).1.qosEngine.pending.lookup q =
        bus.qosEngine.pending.lookup q ∨
      ∃ dest data, .register q dest data qos ∈ (publishTo env topic payload qos flags eps bus).2 ∧
        (publishTo env topic payload qos flags eps bus).1.qosEngine.pending.lookup q =
          some (QoSEngine.make q data qos dest (env.sent q)) := by
  induction eps generalizing bus with
  | nil => exact Or.inl rfl
  | cons ep rest ih =>
      simp only [publishTo]
      obtain hrest | ⟨dest, data, hmem, hrest⟩ :=
        ih (bus.publishOne env topic payload qos flags ep).1
      · rw [hrest]
        simp only [publishOne]
        split
        · simp only [QoSEngine.lookup_addPending]
          split
          · rename_i hq
            subst hq
            exact Or.inr ⟨_, _, List.mem_append_left _
              (List.mem_cons_of_mem _ List.mem_cons_self), rfl⟩
          · exact Or.inl rfl
        · exact Or.inl rfl
      · exact Or.inr ⟨dest, data, List.mem_append_right _ hmem, hrest⟩

theorem publish_pending (topic payload : Bytes) (qos : QoSProfile) (flags : UInt8) (q : UInt32) :
    PendingFate env bus (.publish topic payload qos flags)
      (bus.publish env topic payload qos flags).2 q (bus.qosEngine.pending.lookup q)
      ((bus.publish env topic payload qos flags).1.qosEngine.pending.lookup q) := by
  obtain ⟨store, hstore⟩ := retain_shape env { bus with seqCounter := bus.seqCounter + 1 } flags
    { topic, payload, sourceId := bus.nodeId, sequenceId := UInt32.ofNat bus.seqCounter }
    qos.lifespanMs
  simp only [publish, hstore]
  generalize htargets : targets env
    { bus with seqCounter := bus.seqCounter + 1, retainedStore := store } _ = eps
  obtain hsame | ⟨dest, data, hmem, hnew⟩ := publishTo_pending env
    { bus with seqCounter := bus.seqCounter + 1, retainedStore := store } topic payload qos flags
    eps q
  · rw [hsame]
    exact .kept
  · rw [hnew]
    exact .registered (List.mem_cons_of_mem _ hmem)

section Received

variable (call : Call) (old : MessageBus) (q : UInt32)

theorem sendReply_pending (dest : Endpoint) (corrId : UInt32) (payload : Bytes) (qos : QoSProfile)
    (registerRetransmit : Bool) :
    PendingFate env old call (bus.sendReply env dest corrId payload qos registerRetransmit).2 q
      (bus.qosEngine.pending.lookup q)
      ((bus.sendReply env dest corrId payload qos registerRetransmit).1.qosEngine.pending.lookup
        q) := by
  simp only [sendReply]
  split
  · simp only [QoSEngine.lookup_addPending]
    split
    · rename_i hq
      subst hq
      exact .registered (List.mem_cons_of_mem _ List.mem_cons_self)
    · exact .kept
  · exact .kept

theorem serveRequest_pending (source : Endpoint) (r : DecodeResult) :
    PendingFate env old call (bus.serveRequest env source r).2 q (bus.qosEngine.pending.lookup q)
      ((bus.serveRequest env source r).1.qosEngine.pending.lookup q) := by
  simp only [serveRequest]
  split
  · exact sendReply_pending env bus call old q _ _ _ _ _
  · split
    · generalize hcache : AList.insert _ _ bus.replyCache = cache
      exact (sendReply_pending env { bus with replyCache := cache } call old q _ _ _ _ _).mono
        fun effect hmem => List.mem_cons_of_mem _ hmem
    · exact .kept

theorem dispatch_pending (source : Endpoint) (r : DecodeResult) :
    PendingFate env old call (bus.dispatch env source r).2 q (bus.qosEngine.pending.lookup q)
      ((bus.dispatch env source r).1.qosEngine.pending.lookup q) := by
  simp only [dispatch]
  split
  · obtain ⟨store, hstore⟩ := retain_shape env bus r.header.flags
      { topic := r.topic, payload := r.payload, sourceId := r.header.sourceId,
        sequenceId := r.header.sequenceId } 0
    simp only [deliverPublish, hstore]
    exact .kept
  · exact serveRequest_pending env bus call old q source r
  · obtain ⟨requests, h⟩ := completeRequest_shape env bus source r
    rw [h]
    exact .kept
  · exact .kept

theorem receiveData_pending (source : Endpoint) (r : DecodeResult) :
    PendingFate env old call (bus.receiveData env source r).2 q (bus.qosEngine.pending.lookup q)
      ((bus.receiveData env source r).1.qosEngine.pending.lookup q) := by
  refine receiveData_elim env ?_ ?_ ?_
  · intro _
    exact (dispatch_pending env bus call old q source r).mono
      fun effect hmem => List.mem_append_right _ hmem
  · intro _
    exact .kept
  · intro _
    exact (dispatch_pending env (bus.afterCheck env r) call old q source r).mono
      fun effect hmem => List.mem_append_right _ hmem

end Received

theorem onReceived_pending (source : Endpoint) (data : Bytes) (q : UInt32) :
    PendingFate env bus (.received source data) (bus.onReceived env source data).2 q
      (bus.qosEngine.pending.lookup q)
      ((bus.onReceived env source data).1.qosEngine.pending.lookup q) := by
  generalize hr : MessageCodec.decode bus.sizeT data = r
  refine onReceived_elim env hr ?_ ?_ ?_ ?_ ?_ ?_ ?_
  · exact fun _ => .kept
  · intro hvalid htype
    rw [QoSEngine.lookup_onAck]
    split
    · exact .answered (Or.inl (receives_of_decode hr hvalid htype (Eq.symm ‹_›)))
    · exact .kept
  · intro _ _
    simp only [QoSEngine.onNack]
    split
    · rename_i pm hlookup
      simp only [Table.lookup_insert_eq]
      split
      · rename_i hq
        rw [hq, hlookup]
        exact .retried List.mem_cons_self
      · exact .kept
    · exact .kept
  · intro hvalid htype
    have hlookup := QoSEngine.lookup_onPubrec bus.qosEngine r.header.sequenceId q
    simp only [receivePubrec, QoSEngine.addPendingRel]
    rw [hlookup]
    split
    · exact .answered (Or.inr (receives_of_decode hr hvalid htype (Eq.symm ‹_›)))
    · exact .kept
  · exact fun _ _ => .kept
  · exact fun _ _ => .kept
  · exact fun _ _ => receiveData_pending env bus _ bus q source r

theorem tick_pending (q : UInt32) :
    PendingFate env bus .tick (bus.tick env).2 q (bus.qosEngine.pending.lookup q)
      ((bus.tick env).1.qosEngine.pending.lookup q) := by
  obtain ⟨_, _, _, _, hshape⟩ := tick_shape env bus
  rw [hshape]
  have hengine : ∀ effect ∈ (bus.tickEngine env).2, effect ∈ (bus.tick env).2 :=
    fun effect hmem => List.mem_append_left _ (List.mem_append_left _ hmem)
  change PendingFate env bus .tick (bus.tick env).2 q (bus.qosEngine.pending.lookup q)
    ((QoSEngine.sweep bus.qosEngine.pending env.now env.sent).table.lookup q)
  cases hbefore : bus.qosEngine.pending.lookup q with
  | none =>
      rw [QoSEngine.lookup_sweep, hbefore]
      exact .kept
  | some pm =>
      obtain hkept | ⟨hretried, hlisted⟩ | ⟨hgone, hexhausted, hlisted⟩ :=
        QoSEngine.sweep_cases q env.now env.sent hbefore
      · rw [hkept]
        exact .kept
      · rw [hretried]
        refine .retried (hengine _ ?_)
        exact List.mem_append_left _ (List.mem_append_left _ (List.mem_append_left _
          (List.mem_map_of_mem hlisted)))
      · rw [hgone]
        have hreported : Effect.abandoned
            (bus.qosEngine.processTimeouts env.now env.sent).abandoned ∈ (bus.tick env).2 :=
          hengine _ (List.mem_append_left _ (List.mem_append_right _ List.mem_cons_self))
        exact .abandoned rfl hexhausted hreported (List.mem_append_left _ hlisted)

/-- The entry of `pending` under a number, before and after a call. -/
theorem exec_pending (call : Call) (q : UInt32) :
    PendingFate env bus call (bus.exec env call).2 q (bus.qosEngine.pending.lookup q)
      ((bus.exec env call).1.qosEngine.pending.lookup q) := by
  cases call with
  | publish topic payload qos flags => exact publish_pending env bus topic payload qos flags q
  | received source data => exact onReceived_pending env bus source data q
  | tick => exact tick_pending env bus q
  | sendRequest service payload qos corrId timeout =>
      obtain ⟨_, _, h⟩ := sendRequest_shape env bus service payload qos corrId timeout
      simp only [exec, h]
      exact .kept
  | deliverWill topic payload retainWill sourceId =>
      obtain ⟨_, h⟩ := deliverWill_shape env bus topic payload retainWill sourceId
      simp only [exec, h]
      exact .kept
  | stop =>
      simp only [exec, stop]
      split
      · exact .kept
      · exact .kept
  | _ => exact .kept

/-! ### Ways into and out of `pendingRel` -/

/-- What becomes of the entry of `pendingRel` under one number. -/
inductive ReleaseFate (env : Env) (bus : MessageBus) (call : Call) (q : UInt32) :
    Option PendingMsg → Option PendingMsg → Prop
  | kept {entry : Option PendingMsg} : ReleaseFate env bus call q entry entry
  | entered {before : Option PendingMsg} {source : Endpoint} {data : Bytes}
      (h : Receives bus.sizeT call source .pubrec q)
      (hdata : data = encode (bus.controlArgs .pubrel q .exactlyOnce) (env.stamp q)) :
      ReleaseFate env bus call q before
        (some (QoSEngine.make q data .exactlyOnce source (env.sent q)))
  | retried {pm : PendingMsg} {now : Int} :
      ReleaseFate env bus call q (some pm) (some (QoSEngine.retry pm now))
  | completed {before : Option PendingMsg} {source : Endpoint}
      (h : Receives bus.sizeT call source .pubcomp q) :
      ReleaseFate env bus call q before none
  | abandoned {pm : PendingMsg} (hcall : call = .tick) :
      ReleaseFate env bus call q (some pm) none

theorem receiveData_pendingRel (source : Endpoint) (r : DecodeResult) :
    (bus.receiveData env source r).1.qosEngine.pendingRel = bus.qosEngine.pendingRel := by
  refine receiveData_elim env ?_ ?_ ?_
  · intro _
    obtain ⟨_, _, _, _, _, h⟩ := dispatch_shape env bus source r
    rw [h]
  · intro _
    rfl
  · intro _
    obtain ⟨_, _, _, _, _, h⟩ := dispatch_shape env (bus.afterCheck env r) source r
    rw [h]
    rfl

theorem onReceived_pendingRel (source : Endpoint) (data : Bytes) (q : UInt32) :
    ReleaseFate env bus (.received source data) q
      (bus.qosEngine.pendingRel.lookup q)
      ((bus.onReceived env source data).1.qosEngine.pendingRel.lookup q) := by
  generalize hr : MessageCodec.decode bus.sizeT data = r
  refine onReceived_elim env hr ?_ ?_ ?_ ?_ ?_ ?_ ?_
  · exact fun _ => .kept
  · exact fun _ _ => .kept
  · intro _ _
    simp only [QoSEngine.onNack]
    split
    · exact .kept
    · exact .kept
  · intro hvalid htype
    simp only [receivePubrec, QoSEngine.lookup_addPendingRel]
    split
    · rename_i hq
      subst hq
      exact .entered (receives_of_decode hr hvalid htype rfl) rfl
    · exact .kept
  · exact fun _ _ => .kept
  · intro hvalid htype
    rw [QoSEngine.lookup_onPubcomp]
    split
    · exact .completed (receives_of_decode hr hvalid htype (Eq.symm ‹_›))
    · exact .kept
  · intro _ _
    rw [receiveData_pendingRel]
    exact .kept

theorem tick_pendingRel (q : UInt32) :
    ReleaseFate env bus .tick q (bus.qosEngine.pendingRel.lookup q)
      ((bus.tick env).1.qosEngine.pendingRel.lookup q) := by
  obtain ⟨_, _, _, _, hshape⟩ := tick_shape env bus
  rw [hshape]
  have hafter : (bus.tickEngine env).1.qosEngine.pendingRel.lookup q =
      (bus.qosEngine.pendingRel.lookup q).bind (QoSEngine.sweepEntry env.now env.sent) :=
    QoSEngine.lookup_sweep q env.now env.sent bus.qosEngine.pendingRel
  simp only [hafter]
  cases hbefore : bus.qosEngine.pendingRel.lookup q with
  | none => exact .kept
  | some pm =>
      simp only [Option.bind_some, QoSEngine.sweepEntry]
      split
      · split
        · exact .abandoned rfl
        · exact .retried
      · exact .kept

/-- The entry of `pendingRel` under a number, before and after a call. -/
theorem exec_pendingRel (call : Call) (q : UInt32) :
    ReleaseFate env bus call q (bus.qosEngine.pendingRel.lookup q)
      ((bus.exec env call).1.qosEngine.pendingRel.lookup q) := by
  cases call with
  | publish topic payload qos flags =>
      obtain ⟨_, _, _, h⟩ := publish_shape env bus topic payload qos flags
      simp only [exec, h]
      exact .kept
  | received source data => exact onReceived_pendingRel env bus source data q
  | tick => exact tick_pendingRel env bus q
  | sendRequest service payload qos corrId timeout =>
      obtain ⟨_, _, h⟩ := sendRequest_shape env bus service payload qos corrId timeout
      simp only [exec, h]
      exact .kept
  | deliverWill topic payload retainWill sourceId =>
      obtain ⟨_, h⟩ := deliverWill_shape env bus topic payload retainWill sourceId
      simp only [exec, h]
      exact .kept
  | stop =>
      simp only [exec, stop]
      split
      · exact .kept
      · exact .kept
  | _ => exact .kept

/-! ### Steps of the handshake -/

end EmbedMq.MessageBus
