import EmbedMq.Bus.Sending
import EmbedMq.Concurrent.Actions

/-!
# What one action can do

Each action is analysed once: which actions it may ask for and when, which effects it
may have and when, and which parts of the bus it does not write. What holds over a
whole run is then proved from these lists, without looking into `Action.run` again.
-/

namespace EmbedMq

open MessageBus (RetryJob Prompts)
open MessageCodec (DecodeResult encode)

namespace Action

/-! ### What an action asks for -/

/-- What is asked for after the duplicate check. -/
inductive Dispatches (source : Endpoint) (r : DecodeResult) : Action → Prop where
  | store (retained : ReceivedMessage) : Dispatches source r (.store r.header.flags retained 0)
  | route : Dispatches source r (.route (MessageBus.publishedMessage r))
  | findReply : MessageType.ofByte r.header.msgType = .request →
      Dispatches source r (.findReply source r)
  | ack : MessageType.ofByte r.header.msgType = .reply →
      QoSLevel.reliable ≤ QoSLevel.ofByte r.header.qosLevel →
      Dispatches source r (.sendCtrl source .ack r.header.sequenceId)
  | takeReplied : MessageType.ofByte r.header.msgType = .reply →
      Dispatches source r (.takeReplied r.header.correlationId r.payload)

/-- What a decoded frame asks for. -/
inductive Receives (source : Endpoint) (r : DecodeResult) : Action → Prop where
  | onAck : MessageType.ofByte r.header.msgType = .ack →
      Receives source r (.onAck r.header.sequenceId)
  | onNack : MessageType.ofByte r.header.msgType = .nack →
      Receives source r (.onNack r.header.sequenceId)
  | onPubrec : MessageType.ofByte r.header.msgType = .pubrec →
      Receives source r (.onPubrec source r.header.sequenceId)
  | onPubcomp : MessageType.ofByte r.header.msgType = .pubcomp →
      Receives source r (.onPubcomp r.header.sequenceId)
  | sendCtrl (type : MessageType) : Prompts type r →
      Receives source r (.sendCtrl source type r.header.sequenceId)
  | isDuplicate : Receives source r (.isDuplicate source r)
  | dispatches {b : Action} : Dispatches source r b → Receives source r b

/-- The control flow of the entry points: what each action may ask for, and when. -/
inductive Asks (env : Env) (bus : MessageBus) : Action → Action → Prop where
  | publishStore (topic payload : Bytes) (qos : QoSProfile) (flags : UInt8)
      (msg : ReceivedMessage) :
      Asks env bus (.publish topic payload qos flags) (.store flags msg qos.lifespanMs)
  | publishRoute (topic payload : Bytes) (qos : QoSProfile) (flags : UInt8)
      (msg : ReceivedMessage) : Asks env bus (.publish topic payload qos flags) (.route msg)
  | publishSelect (topic payload : Bytes) (qos : QoSProfile) (flags : UInt8) :
      Asks env bus (.publish topic payload qos flags) (.selectTargets topic payload qos flags)
  | willStore (topic payload : Bytes) (retainWill : Bool) (sourceId : UInt16) (flags : UInt8)
      (msg : ReceivedMessage) :
      Asks env bus (.deliverWill topic payload retainWill sourceId) (.store flags msg 0)
  | willRoute (topic payload : Bytes) (retainWill : Bool) (sourceId : UInt16)
      (msg : ReceivedMessage) :
      Asks env bus (.deliverWill topic payload retainWill sourceId) (.route msg)
  | selectTargets (topic payload : Bytes) (qos : QoSProfile) (flags : UInt8) (ep : Endpoint) :
      Asks env bus (.selectTargets topic payload qos flags) (.sendTo topic payload qos flags ep)
  | sendTo (topic payload : Bytes) (qos : QoSProfile) (flags : UInt8) (ep : Endpoint)
      (data : Bytes) :
      .frame bus.seqCounter ep [data] ∈ (runSendTo env topic payload qos flags ep bus).effects →
      Asks env bus (.sendTo topic payload qos flags ep)
        (.addPending (UInt32.ofNat bus.seqCounter) data qos ep)
  | receive (source : Endpoint) (data : Bytes) {b : Action} :
      (MessageCodec.decode bus.sizeT data).valid = true →
      Receives source (MessageCodec.decode bus.sizeT data) b →
      Asks env bus (.receive source data) b
  | onPubrec (source : Endpoint) (seqId : UInt32) :
      Asks env bus (.onPubrec source seqId) (.sendPubrel source seqId)
  | sendPubrel (source : Endpoint) (seqId : UInt32) (stamp : UInt64) :
      Asks env bus (.sendPubrel source seqId)
        (.addPendingRel seqId (encode (bus.controlArgs .pubrel seqId .exactlyOnce) stamp) source)
  | isDuplicate (source : Endpoint) (r : DecodeResult) {b : Action} : Dispatches source r b →
      Asks env bus (.isDuplicate source r) b
  | findReply (source : Endpoint) (r : DecodeResult) :
      bus.replyCache.lookup (MessageBus.replyKey r.header.sourceId r.header.correlationId) = none →
      Asks env bus (.findReply source r) (.findHandler source r)
  | findHandler (source : Endpoint) (r : DecodeResult) (handler : Nat) :
      bus.serviceHandlers.lookup (MessageBus.serviceName r.topic) = some handler →
      Asks env bus (.findHandler source r) (.runHandler source r handler)
  | runHandler (source : Endpoint) (r : DecodeResult) (handler : Nat) :
      Asks env bus (.runHandler source r handler)
        (.cacheReply source r (env.invoke handler (request r)))
  | cacheReply (source : Endpoint) (r : DecodeResult) (response : Bytes) (qos : QoSProfile) :
      Asks env bus (.cacheReply source r response)
        (.sendReply source r.header.correlationId response qos)
  | sendReply (dest : Endpoint) (corrId : UInt32) (payload : Bytes) (qos : QoSProfile)
      (data : Bytes) :
      .frame bus.seqCounter dest [data] ∈ (runSendReply env dest corrId payload qos bus).effects →
      Asks env bus (.sendReply dest corrId payload qos)
        (.addPending (UInt32.ofNat bus.seqCounter) data qos dest)
  | takeReplied (corrId : UInt32) (payload : Bytes) :
      (bus.pendingRequests.lookup corrId).isSome = true →
      Asks env bus (.takeReplied corrId payload) (.settle corrId (.value payload))
  | handled (service payload : Bytes) (qos : QoSProfile) (corrId : UInt32)
      (timeoutOverride : Int) (handler : Nat) :
      bus.serviceHandlers.lookup service = some handler →
      Asks env bus (.sendRequest service payload qos corrId timeoutOverride)
        (.runLocal service payload corrId handler)
  | unhandled (service payload : Bytes) (qos : QoSProfile) (corrId : UInt32)
      (timeoutOverride : Int) :
      Asks env bus (.sendRequest service payload qos corrId timeoutOverride)
        (.addRequest service payload qos corrId timeoutOverride)
  | runLocal (service payload : Bytes) (corrId : UInt32) (handler : Nat) (req : ReceivedMessage)
      (response : Bytes) :
      .handle handler req response ∈
        (run env (.runLocal service payload corrId handler) bus).effects →
      Asks env bus (.runLocal service payload corrId handler) (.settle corrId (.value response))
  | addRequest (service payload : Bytes) (qos : QoSProfile) (corrId : UInt32)
      (timeoutOverride : Int) :
      Asks env bus (.addRequest service payload qos corrId timeoutOverride)
        (.dispatchRequest service payload qos corrId)
  | dispatchRequest (service payload : Bytes) (qos : QoSProfile) (corrId : UInt32) (sent : Bool) :
      Asks env bus (.dispatchRequest service payload qos corrId)
        (.checkProvider service corrId sent)
  | checkProvider (service : Bytes) (corrId : UInt32) (sent : Bool) :
      Asks env bus (.checkProvider service corrId sent) (.takeUnprovided service corrId)
  | takeUnprovided (service : Bytes) (corrId : UInt32) :
      (bus.pendingRequests.lookup corrId).isSome = true →
      Asks env bus (.takeUnprovided service corrId) (.settle corrId (noProvider service))
  | processTimeouts : Asks env bus .tick .processTimeouts
  | cleanupDedupWindow : Asks env bus .tick .cleanupDedupWindow
  | expireRetained : Asks env bus .tick .expireRetained
  | expireReplyCache : Asks env bus .tick .expireReplyCache
  | sweepRequests : Asks env bus .tick .sweepRequests
  | retry (job : RetryJob) : Asks env bus .sweepRequests (.retryRequest job)
  | expire (corrId : UInt32) (pr : PendingRequest) :
      bus.pendingRequests.lookup corrId = some pr → pr.deadline ≤ env.now →
      Asks env bus .sweepRequests (.settle corrId requestTimedOut)
  | stop : bus.running = true → Asks env bus .stop .clearRequests
  | addSubscription (pattern : Bytes) (callback : Nat) (qos : QoSProfile) :
      Asks env bus (.addSubscription pattern callback qos) (.replayRetained pattern callback)

theorem dispatches_of_mem {source : Endpoint} {r : DecodeResult} {b : Action}
    (h : b ∈ dispatched source r) : Dispatches source r b := by
  unfold dispatched at h
  split at h
  · simp only [List.mem_cons, List.not_mem_nil, or_false] at h
    obtain rfl | rfl := h
    · exact .store _
    · exact .route
  · rename_i htype
    obtain rfl := List.mem_singleton.mp h
    exact .findReply htype
  · rename_i htype
    obtain hack | htake := List.mem_append.mp h
    · split at hack
      · rename_i hlevel
        obtain rfl := List.mem_singleton.mp hack
        exact .ack htype hlevel
      · exact absurd hack List.not_mem_nil
    · obtain rfl := List.mem_singleton.mp htake
      exact .takeReplied htype
  · exact absurd h List.not_mem_nil

theorem receives_of_mem {source : Endpoint} {r : DecodeResult} {b : Action}
    (h : b ∈ received source r) : r.valid = true ∧ Receives source r b := by
  unfold received at h
  split at h
  · refine ⟨by assumption, ?_⟩
    split at h
    · rename_i htype
      obtain rfl := List.mem_singleton.mp h
      exact .onAck htype
    · rename_i htype
      obtain rfl := List.mem_singleton.mp h
      exact .onNack htype
    · rename_i htype
      obtain rfl := List.mem_singleton.mp h
      exact .onPubrec htype
    · rename_i htype
      obtain rfl := List.mem_singleton.mp h
      exact .sendCtrl .pubcomp htype
    · rename_i htype
      obtain rfl := List.mem_singleton.mp h
      exact .onPubcomp htype
    · obtain hanswer | hrest := List.mem_append.mp h
      · unfold answered at hanswer
        split at hanswer
        · rename_i htype hlevel
          obtain rfl := List.mem_singleton.mp hanswer
          exact .sendCtrl .pubrec ⟨htype, hlevel⟩
        · rename_i htype hlevel
          obtain rfl := List.mem_singleton.mp hanswer
          exact .sendCtrl .ack (Or.inl ⟨htype, hlevel⟩)
        · exact absurd hanswer List.not_mem_nil
      · split at hrest
        · obtain rfl := List.mem_singleton.mp hrest
          exact .isDuplicate
        · exact .dispatches (dispatches_of_mem hrest)
  · exact absurd h List.not_mem_nil

theorem asks_of_mem {env : Env} {bus : MessageBus} {a b : Action}
    (h : b ∈ (run env a bus).next) : Asks env bus a b := by
  cases a with
  | publish topic payload qos flags =>
      simp only [run, List.mem_cons, List.not_mem_nil, or_false] at h
      obtain rfl | rfl | rfl := h
      · exact .publishStore topic payload qos flags _
      · exact .publishRoute topic payload qos flags _
      · exact .publishSelect topic payload qos flags
  | deliverWill topic payload retainWill sourceId =>
      simp only [run, List.mem_cons, List.not_mem_nil, or_false] at h
      obtain rfl | rfl := h
      · exact .willStore topic payload retainWill sourceId _ _
      · exact .willRoute topic payload retainWill sourceId _
  | selectTargets topic payload qos flags =>
      obtain ⟨ep, _, rfl⟩ := List.mem_map.mp h
      exact .selectTargets topic payload qos flags ep
  | sendTo topic payload qos flags ep =>
      have hnext : b ∈ (runSendTo env topic payload qos flags ep bus).next := h
      by_cases hlevel : QoSLevel.reliable ≤ qos.level
      · have hrun : runSendTo env topic payload qos flags ep bus = _ := if_pos hlevel
        rw [hrun] at hnext
        obtain rfl := List.mem_singleton.mp hnext
        refine .sendTo topic payload qos flags ep _ ?_
        rw [hrun]
        exact List.mem_singleton.mpr rfl
      · have hrun : runSendTo env topic payload qos flags ep bus = _ := if_neg hlevel
        rw [hrun] at hnext
        exact absurd hnext List.not_mem_nil
  | receive source data =>
      obtain ⟨hvalid, hreceives⟩ := receives_of_mem h
      exact .receive source data hvalid hreceives
  | onPubrec source seqId =>
      obtain rfl := List.mem_singleton.mp h
      exact .onPubrec source seqId
  | sendPubrel source seqId =>
      obtain rfl := List.mem_singleton.mp h
      exact .sendPubrel source seqId _
  | isDuplicate source r =>
      have hnext : b ∈ if (bus.qosEngine.isDuplicate r.header.sourceId r.header.sequenceId
          env.now).1 then [] else dispatched source r := h
      split at hnext
      · exact absurd hnext List.not_mem_nil
      · exact .isDuplicate source r (dispatches_of_mem hnext)
  | findReply source r =>
      simp only [run] at h
      split at h
      · exact absurd h List.not_mem_nil
      · rename_i hnone
        obtain rfl := List.mem_singleton.mp h
        exact .findReply source r hnone
  | findHandler source r =>
      simp only [run] at h
      split at h
      · rename_i handler hsome
        obtain rfl := List.mem_singleton.mp h
        exact .findHandler source r handler hsome
      · exact absurd h List.not_mem_nil
  | runHandler source r handler =>
      obtain rfl := List.mem_singleton.mp h
      exact .runHandler source r handler
  | cacheReply source r response =>
      obtain rfl := List.mem_singleton.mp h
      exact .cacheReply source r response _
  | sendReply dest corrId payload qos =>
      have hnext : b ∈ (runSendReply env dest corrId payload qos bus).next := h
      simp only [runSendReply] at hnext
      split at hnext
      · obtain rfl := List.mem_singleton.mp hnext
        exact .sendReply dest corrId payload qos _ (List.mem_singleton.mpr rfl)
      · exact absurd hnext List.not_mem_nil
  | takeReplied corrId payload =>
      simp only [run, runTake] at h
      split at h
      · rename_i pr hpr
        obtain rfl := List.mem_singleton.mp h
        exact .takeReplied corrId payload (by rw [hpr, Option.isSome_some])
      · exact absurd h List.not_mem_nil
  | sendRequest service payload qos corrId timeoutOverride =>
      simp only [run] at h
      split at h
      · rename_i handler hsome
        obtain rfl := List.mem_singleton.mp h
        exact .handled service payload qos corrId timeoutOverride handler hsome
      · obtain rfl := List.mem_singleton.mp h
        exact .unhandled service payload qos corrId timeoutOverride
  | runLocal service payload corrId handler =>
      obtain rfl := List.mem_singleton.mp h
      exact .runLocal service payload corrId handler _ _ (List.mem_singleton.mpr rfl)
  | addRequest service payload qos corrId timeoutOverride =>
      obtain rfl := List.mem_singleton.mp h
      exact .addRequest service payload qos corrId timeoutOverride
  | dispatchRequest service payload qos corrId =>
      obtain rfl := List.mem_singleton.mp h
      exact .dispatchRequest service payload qos corrId _
  | checkProvider service corrId sent =>
      simp only [run] at h
      split at h
      · obtain rfl := List.mem_singleton.mp h
        exact .checkProvider service corrId sent
      · exact absurd h List.not_mem_nil
  | takeUnprovided service corrId =>
      simp only [run, runTake] at h
      split at h
      · rename_i pr hpr
        obtain rfl := List.mem_singleton.mp h
        exact .takeUnprovided service corrId (by rw [hpr, Option.isSome_some])
      · exact absurd h List.not_mem_nil
  | tick =>
      simp only [run, List.mem_cons, List.not_mem_nil, or_false] at h
      obtain rfl | rfl | rfl | rfl | rfl := h
      · exact .processTimeouts
      · exact .cleanupDedupWindow
      · exact .expireRetained
      · exact .expireReplyCache
      · exact .sweepRequests
  | sweepRequests =>
      obtain hretry | hexpired := List.mem_append.mp h
      · obtain ⟨job, _, rfl⟩ := List.mem_map.mp hretry
        exact .retry job
      · obtain ⟨corrId, hmem, rfl⟩ := List.mem_map.mp hexpired
        obtain ⟨pr, hlookup, hdeadline⟩ :=
          (Table.mem_selected (p := fun pr : PendingRequest => pr.deadline ≤ env.now)).mp hmem
        exact .expire corrId pr hlookup hdeadline
  | stop =>
      simp only [run] at h
      split at h
      · rename_i hrunning
        obtain rfl := List.mem_singleton.mp h
        exact .stop hrunning
      · exact absurd h List.not_mem_nil
  | addSubscription pattern callback qos =>
      simp only [run] at h
      split at h
      · obtain rfl := List.mem_singleton.mp h
        exact .addSubscription pattern callback qos
      · exact absurd h List.not_mem_nil
  | _ => exact absurd h List.not_mem_nil

/-! ### What an action does to the outside -/

/-- The actions that send numbered frames. -/
def sendsFrames : Action → Bool
  | sendTo _ _ _ _ _ => true
  | findReply _ _ => true
  | sendReply _ _ _ _ => true
  | dispatchRequest _ _ _ _ => true
  | retryRequest _ => true
  | _ => false

/-- The effects that each action may have, and when. A frame takes its number from the counter. -/
inductive Emits (env : Env) (bus : MessageBus) : Action → Effect → Prop where
  | frame (a : Action) (dest : Endpoint) (slices : List Bytes) : a.sendsFrames = true →
      (run env a bus).state.seqCounter = bus.seqCounter + 1 →
      Emits env bus a (.frame bus.seqCounter dest slices)
  | control (dest : Endpoint) (type : MessageType) (seqId : UInt32) (stamp : UInt64) :
      Emits env bus (.sendCtrl dest type seqId)
        (.answer dest (encode (bus.controlArgs type seqId) stamp))
  | release (source : Endpoint) (seqId : UInt32) (stamp : UInt64) :
      Emits env bus (.sendPubrel source seqId)
        (.answer source (encode (bus.controlArgs .pubrel seqId .exactlyOnce) stamp))
  | register (seqId : UInt32) (data : Bytes) (qos : QoSProfile) (dest : Endpoint) :
      Emits env bus (.addPending seqId data qos dest) (.register seqId dest data qos)
  | nack (seqId : UInt32) (pm : PendingMsg) : bus.qosEngine.pending.lookup seqId = some pm →
      Emits env bus (.onNack seqId) (.resend (QoSEngine.resendOf pm))
  | resend (seqId : UInt32) (pm : PendingMsg) : bus.qosEngine.pending.lookup seqId = some pm →
      Emits env bus .processTimeouts (.resend (QoSEngine.resendOf pm))
  | resendRel (seqId : UInt32) (pm : PendingMsg) :
      bus.qosEngine.pendingRel.lookup seqId = some pm →
      Emits env bus .processTimeouts (.resendRel (QoSEngine.resendOf pm))
  | abandoned (ids : List UInt32) : Emits env bus .processTimeouts (.abandoned ids)
  | evict (source : UInt16) : Emits env bus .cleanupDedupWindow (.evict source)
  | route (msg : ReceivedMessage) (callbacks : List Nat) :
      Emits env bus (.route msg) (.route msg callbacks)
  | replay (pattern : Bytes) (callback : Nat) (msg : ReceivedMessage) :
      Emits env bus (.replayRetained pattern callback) (.replay callback msg)
  | runHandler (source : Endpoint) (r : DecodeResult) (handler : Nat) :
      Emits env bus (.runHandler source r handler)
        (.handle handler (request r) (env.invoke handler (request r)))
  | runLocal (service payload : Bytes) (corrId : UInt32) (handler : Nat) (req : ReceivedMessage)
      (response : Bytes) :
      Emits env bus (.runLocal service payload corrId handler) (.handle handler req response)
  | settle (corrId : UInt32) (outcome : Settlement) :
      Emits env bus (.settle corrId outcome) (.settle corrId outcome)
  | stopped (corrId : UInt32) : (bus.pendingRequests.lookup corrId).isSome = true →
      Emits env bus .clearRequests (.settle corrId busStopped)

theorem emits_of_mem {env : Env} {bus : MessageBus} {a : Action} {effect : Effect}
    (h : effect ∈ (run env a bus).effects) : Emits env bus a effect := by
  cases a with
  | route msg =>
      obtain rfl := List.mem_singleton.mp h
      exact .route msg _
  | sendTo topic payload qos flags ep =>
      have hnumber : (run env (.sendTo topic payload qos flags ep) bus).state.seqCounter =
          bus.seqCounter + 1 := by
        simp only [run, runSendTo]
        split <;> rfl
      simp only [run, runSendTo] at h
      split at h
      · obtain rfl := List.mem_singleton.mp h
        exact .frame _ _ _ rfl hnumber
      · obtain rfl := List.mem_singleton.mp h
        exact .frame _ _ _ rfl hnumber
  | addPending seqId data qos dest =>
      obtain rfl := List.mem_singleton.mp h
      exact .register seqId data qos dest
  | onNack seqId =>
      simp only [run, QoSEngine.onNack] at h
      split at h
      · rename_i pm hpm
        obtain rfl := List.mem_singleton.mp h
        exact .nack seqId pm hpm
      · exact absurd h List.not_mem_nil
  | sendPubrel source seqId =>
      obtain rfl := List.mem_singleton.mp h
      exact .release source seqId _
  | sendCtrl dest type seqId =>
      obtain rfl := List.mem_singleton.mp h
      exact .control dest type seqId _
  | findReply source r =>
      simp only [run] at h
      split at h
      · rename_i cached hcached
        simp only [MessageBus.sendReply, Bool.false_eq_true, false_and, if_false] at h
        obtain rfl := List.mem_singleton.mp h
        refine .frame _ _ _ rfl ?_
        simp only [run, hcached, MessageBus.sendReply, Bool.false_eq_true, false_and, if_false]
      · exact absurd h List.not_mem_nil
  | runHandler source r handler =>
      obtain rfl := List.mem_singleton.mp h
      exact .runHandler source r handler
  | sendReply dest corrId payload qos =>
      obtain rfl := List.mem_singleton.mp h
      exact .frame _ _ _ rfl rfl
  | runLocal service payload corrId handler =>
      obtain rfl := List.mem_singleton.mp h
      exact .runLocal service payload corrId handler _ _
  | dispatchRequest service payload qos corrId =>
      obtain ⟨hcounter, _, _, rfl⟩ := MessageBus.mem_dispatchRequest env bus h
      exact .frame _ _ _ rfl hcounter
  | retryRequest job =>
      obtain ⟨hcounter, _, _, rfl⟩ := MessageBus.mem_dispatchRequest env bus h
      exact .frame _ _ _ rfl hcounter
  | settle corrId outcome =>
      obtain rfl := List.mem_singleton.mp h
      exact .settle corrId outcome
  | processTimeouts =>
      simp only [run, List.mem_append, List.mem_map, List.mem_singleton] at h
      obtain (⟨r, hr, rfl⟩ | ⟨r, hr, rfl⟩) | rfl := h
      · obtain ⟨k, pm, hpm, _, _, rfl⟩ := (QoSEngine.mem_sweep_resends env.now env.sent).mp hr
        exact .resend k pm hpm
      · obtain ⟨k, pm, hpm, _, _, rfl⟩ := (QoSEngine.mem_sweep_resends env.now env.sent).mp hr
        exact .resendRel k pm hpm
      · exact .abandoned _
  | cleanupDedupWindow =>
      obtain ⟨source, _, rfl⟩ := List.mem_map.mp h
      exact .evict source
  | clearRequests =>
      obtain ⟨entry, hmem, rfl⟩ := List.mem_map.mp h
      have hlookup := Table.mem_toList_iff.mp hmem
      exact .stopped entry.1 (by rw [hlookup, Option.isSome_some])
  | replayRetained pattern callback =>
      simp only [run, Option.mem_toList, Option.map_eq_some_iff] at h
      obtain ⟨msg, _, rfl⟩ := h
      exact .replay pattern callback msg
  | findHandler source r =>
      simp only [run] at h
      split at h <;> exact absurd h List.not_mem_nil
  | takeReplied corrId payload =>
      simp only [run, runTake] at h
      split at h <;> exact absurd h List.not_mem_nil
  | takeUnprovided service corrId =>
      simp only [run, runTake] at h
      split at h <;> exact absurd h List.not_mem_nil
  | sendRequest service payload qos corrId timeoutOverride =>
      simp only [run] at h
      split at h <;> exact absurd h List.not_mem_nil
  | stop =>
      simp only [run] at h
      split at h <;> exact absurd h List.not_mem_nil
  | _ => exact absurd h List.not_mem_nil

/-! ### What an action leaves alone -/

def writesRunning : Action → Bool
  | stop => true
  | setting .start => true
  | _ => false

def writesRequests : Action → Bool
  | takeReplied _ _ => true
  | addRequest _ _ _ _ _ => true
  | takeUnprovided _ _ => true
  | cancelPendingRequest _ => true
  | sweepRequests => true
  | clearRequests => true
  | _ => false

def writesReplyCache : Action → Bool
  | cacheReply _ _ _ => true
  | expireReplyCache => true
  | _ => false

def writesPending : Action → Bool
  | addPending _ _ _ _ => true
  | onAck _ => true
  | onNack _ => true
  | onPubrec _ _ => true
  | processTimeouts => true
  | _ => false

def writesPendingRel : Action → Bool
  | addPendingRel _ _ _ => true
  | onPubcomp _ => true
  | processTimeouts => true
  | _ => false

/-- The sequence counter is never reduced. -/
theorem seqCounter_le (env : Env) (a : Action) (bus : MessageBus) :
    bus.seqCounter ≤ (run env a bus).state.seqCounter := by
  cases a with
  | publish => exact Nat.le_succ _
  | deliverWill => exact Nat.le_succ _
  | sendReply => exact Nat.le_succ _
  | runLocal => exact Nat.le_succ _
  | store flags msg lifespanMs =>
      obtain ⟨store, hstore⟩ := MessageBus.retain_shape env bus flags msg lifespanMs
      simp only [run, hstore, Nat.le_refl]
  | sendTo topic payload qos flags ep =>
      simp only [run, runSendTo]
      split <;> exact Nat.le_succ _
  | findReply source r =>
      simp only [run]
      split
      · simp only [MessageBus.sendReply, Bool.false_eq_true, false_and, if_false]
        exact Nat.le_succ _
      · exact Nat.le_refl _
  | dispatchRequest service payload qos c =>
      obtain ⟨n, hshape⟩ := MessageBus.dispatchRequest_shape env bus service payload qos c
      simp only [run, hshape, Nat.le_add_right]
  | retryRequest job =>
      obtain ⟨n, hshape⟩ := MessageBus.dispatchRequest_shape env bus job.service job.payload
        job.qos job.corrId
      simp only [run, hshape, Nat.le_add_right]
  | findHandler source r =>
      simp only [run]
      split <;> exact Nat.le_refl _
  | takeReplied c payload =>
      simp only [run, runTake]
      split <;> exact Nat.le_refl _
  | takeUnprovided service c =>
      simp only [run, runTake]
      split <;> exact Nat.le_refl _
  | sendRequest service payload qos c timeoutOverride =>
      simp only [run]
      split <;> exact Nat.le_refl _
  | stop =>
      simp only [run]
      split <;> exact Nat.le_refl _
  | setting change => cases change <;> exact Nat.le_refl _
  | _ => exact Nat.le_refl _

/-- No action changes the identity of the node. -/
theorem run_nodeId (env : Env) (a : Action) (bus : MessageBus) :
    (run env a bus).state.nodeId = bus.nodeId := by
  cases a with
  | store flags msg lifespanMs =>
      obtain ⟨store, hstore⟩ := MessageBus.retain_shape env bus flags msg lifespanMs
      simp only [run, hstore]
  | sendTo topic payload qos flags ep =>
      simp only [run, runSendTo]
      split <;> rfl
  | findReply source r =>
      simp only [run]
      split
      · simp only [MessageBus.sendReply, Bool.false_eq_true, false_and, if_false]
      · rfl
  | dispatchRequest service payload qos c =>
      obtain ⟨n, hshape⟩ := MessageBus.dispatchRequest_shape env bus service payload qos c
      simp only [run, hshape]
  | retryRequest job =>
      obtain ⟨n, hshape⟩ := MessageBus.dispatchRequest_shape env bus job.service job.payload
        job.qos job.corrId
      simp only [run, hshape]
  | findHandler source r =>
      simp only [run]
      split <;> rfl
  | takeReplied c payload =>
      simp only [run, runTake]
      split <;> rfl
  | takeUnprovided service c =>
      simp only [run, runTake]
      split <;> rfl
  | sendRequest service payload qos c timeoutOverride =>
      simp only [run]
      split <;> rfl
  | stop =>
      simp only [run]
      split <;> rfl
  | setting change => cases change <;> rfl
  | _ => rfl

/-- The tables and the flag of the bus that an action does not write stay as they are. -/
structure Keeps (a : Action) (bus after : MessageBus) : Prop where
  running : a.writesRunning = false → after.running = bus.running
  pendingRequests : a.writesRequests = false → after.pendingRequests = bus.pendingRequests
  replyCache : a.writesReplyCache = false → after.replyCache = bus.replyCache
  pending : a.writesPending = false → after.qosEngine.pending = bus.qosEngine.pending
  pendingRel : a.writesPendingRel = false → after.qosEngine.pendingRel = bus.qosEngine.pendingRel

theorem run_keeps (env : Env) (a : Action) (bus : MessageBus) :
    Keeps a bus (run env a bus).state := by
  cases a with
  | store flags msg lifespanMs =>
      obtain ⟨store, hstore⟩ := MessageBus.retain_shape env bus flags msg lifespanMs
      have hrun : (run env (.store flags msg lifespanMs) bus).state = _ := hstore
      rw [hrun]
      exact ⟨fun _ => rfl, fun _ => rfl, fun _ => rfl, fun _ => rfl, fun _ => rfl⟩
  | sendTo topic payload qos flags ep =>
      simp only [run, runSendTo]
      split <;> exact ⟨fun _ => rfl, fun _ => rfl, fun _ => rfl, fun _ => rfl, fun _ => rfl⟩
  | findReply source r =>
      simp only [run]
      split
      · simp only [MessageBus.sendReply, Bool.false_eq_true, false_and, if_false]
        exact ⟨fun _ => rfl, fun _ => rfl, fun _ => rfl, fun _ => rfl, fun _ => rfl⟩
      · exact ⟨fun _ => rfl, fun _ => rfl, fun _ => rfl, fun _ => rfl, fun _ => rfl⟩
  | findHandler source r =>
      simp only [run]
      split <;> exact ⟨fun _ => rfl, fun _ => rfl, fun _ => rfl, fun _ => rfl, fun _ => rfl⟩
  | takeReplied c payload =>
      simp only [run, runTake]
      split <;> exact ⟨fun _ => rfl, by rintro ⟨⟩, fun _ => rfl, fun _ => rfl, fun _ => rfl⟩
  | takeUnprovided service c =>
      simp only [run, runTake]
      split <;> exact ⟨fun _ => rfl, by rintro ⟨⟩, fun _ => rfl, fun _ => rfl, fun _ => rfl⟩
  | sendRequest service payload qos c timeoutOverride =>
      simp only [run]
      split <;> exact ⟨fun _ => rfl, fun _ => rfl, fun _ => rfl, fun _ => rfl, fun _ => rfl⟩
  | dispatchRequest service payload qos c =>
      obtain ⟨n, hshape⟩ := MessageBus.dispatchRequest_shape env bus service payload qos c
      have hrun : (run env (.dispatchRequest service payload qos c) bus).state = _ := hshape
      rw [hrun]
      exact ⟨fun _ => rfl, fun _ => rfl, fun _ => rfl, fun _ => rfl, fun _ => rfl⟩
  | retryRequest job =>
      obtain ⟨n, hshape⟩ := MessageBus.dispatchRequest_shape env bus job.service job.payload
        job.qos job.corrId
      have hrun : (run env (.retryRequest job) bus).state = _ := hshape
      rw [hrun]
      exact ⟨fun _ => rfl, fun _ => rfl, fun _ => rfl, fun _ => rfl, fun _ => rfl⟩
  | onNack seqId =>
      simp only [run, QoSEngine.onNack]
      split <;> exact ⟨fun _ => rfl, fun _ => rfl, fun _ => rfl, by rintro ⟨⟩, fun _ => rfl⟩
  | addRequest => exact ⟨fun _ => rfl, by rintro ⟨⟩, fun _ => rfl, fun _ => rfl, fun _ => rfl⟩
  | cancelPendingRequest =>
      exact ⟨fun _ => rfl, by rintro ⟨⟩, fun _ => rfl, fun _ => rfl, fun _ => rfl⟩
  | sweepRequests => exact ⟨fun _ => rfl, by rintro ⟨⟩, fun _ => rfl, fun _ => rfl, fun _ => rfl⟩
  | clearRequests => exact ⟨fun _ => rfl, by rintro ⟨⟩, fun _ => rfl, fun _ => rfl, fun _ => rfl⟩
  | cacheReply => exact ⟨fun _ => rfl, fun _ => rfl, by rintro ⟨⟩, fun _ => rfl, fun _ => rfl⟩
  | expireReplyCache => exact ⟨fun _ => rfl, fun _ => rfl, by rintro ⟨⟩, fun _ => rfl, fun _ => rfl⟩
  | addPending => exact ⟨fun _ => rfl, fun _ => rfl, fun _ => rfl, by rintro ⟨⟩, fun _ => rfl⟩
  | onAck => exact ⟨fun _ => rfl, fun _ => rfl, fun _ => rfl, by rintro ⟨⟩, fun _ => rfl⟩
  | onPubrec => exact ⟨fun _ => rfl, fun _ => rfl, fun _ => rfl, by rintro ⟨⟩, fun _ => rfl⟩
  | addPendingRel => exact ⟨fun _ => rfl, fun _ => rfl, fun _ => rfl, fun _ => rfl, by rintro ⟨⟩⟩
  | onPubcomp => exact ⟨fun _ => rfl, fun _ => rfl, fun _ => rfl, fun _ => rfl, by rintro ⟨⟩⟩
  | processTimeouts => exact ⟨fun _ => rfl, fun _ => rfl, fun _ => rfl, by rintro ⟨⟩, by rintro ⟨⟩⟩
  | stop =>
      simp only [run]
      split <;> exact ⟨by rintro ⟨⟩, fun _ => rfl, fun _ => rfl, fun _ => rfl, fun _ => rfl⟩
  | setting change =>
      cases change with
      | start => exact ⟨by rintro ⟨⟩, fun _ => rfl, fun _ => rfl, fun _ => rfl, fun _ => rfl⟩
      | _ => exact ⟨fun _ => rfl, fun _ => rfl, fun _ => rfl, fun _ => rfl, fun _ => rfl⟩
  | _ => exact ⟨fun _ => rfl, fun _ => rfl, fun _ => rfl, fun _ => rfl, fun _ => rfl⟩

end Action

/-! ### What was asked for -/

namespace BusThreads

variable {s : BusThreads} {cond : BusThreads → Threads.Label Env Action → Prop}

/-- A call that begins has nothing but an entry point to run. -/
theorem waiting_of_start {actions : List Action} (hentry : Entry actions) {i : Nat} {a : Action}
    (hwaiting : Threads.Waiting { s with calls := s.calls ++ [actions] } i a)
    (hinner : ∀ call, a ≠ Action.ofCall call) : s.Waiting i a := by
  obtain ⟨call, rfl⟩ := hentry
  obtain ⟨_, hmem⟩ | hold := Threads.waiting_start hwaiting
  · exact absurd (List.mem_singleton.mp hmem) (hinner call)
  · exact hold

/-- An action that no entry point begins with was asked for by an earlier event of its call. -/
theorem event_asked (h : (system.restrict cond).Reachable s) {post pre : List BusEvent}
    {e : BusEvent} (hlog : s.log = post ++ e :: pre)
    (hinner : ∀ call, e.action ≠ Action.ofCall call) :
    ∃ post' asker pre', pre = post' ++ asker :: pre' ∧ asker.call = e.call ∧
      Action.Asks asker.input asker.before asker.action e.action := by
  obtain ⟨_, ⟨call, rfl⟩, hmem⟩ | ⟨asker, hasker, hcall, hnext⟩ := Threads.origin_logged h hlog
  · exact absurd (List.mem_singleton.mp hmem) (hinner call)
  · obtain ⟨post', pre', hpre⟩ := List.append_of_mem hasker
    exact ⟨post', asker, pre', hpre, hcall, Action.asks_of_mem hnext⟩

/-! ### Received frames -/

/-- The frame that an event decodes. -/
def Decodes (e : BusEvent) (source : Endpoint) (r : DecodeResult) : Prop :=
  ∃ data, e.action = .receive source data ∧ r = MessageCodec.decode e.before.sizeT data ∧
    r.valid = true

/-- A frame is decoded before the duplicate check. -/
theorem decodes_of_isDuplicate (h : (system.restrict cond).Reachable s)
    {post pre : List BusEvent} {e : BusEvent} {source : Endpoint} {r : DecodeResult}
    (hlog : s.log = post ++ e :: pre) (haction : e.action = .isDuplicate source r) :
    ∃ asker ∈ pre, asker.call = e.call ∧ Decodes asker source r := by
  obtain ⟨post', asker, pre', rfl, hcall, hasks⟩ := event_asked h hlog (by
    rw [haction]
    rintro (_ | _) ⟨⟩)
  rw [haction] at hasks
  refine ⟨asker, List.mem_append_right _ List.mem_cons_self, hcall, ?_⟩
  generalize hasker : asker.action = a at hasks
  cases hasks with
  | receive _ data hvalid hreceives =>
      cases hreceives with
      | isDuplicate => exact ⟨data, hasker, rfl, hvalid⟩
      | dispatches hb => cases hb
  | isDuplicate _ _ hb => cases hb

end BusThreads

end EmbedMq
