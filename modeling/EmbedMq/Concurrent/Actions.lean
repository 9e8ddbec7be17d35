import EmbedMq.Bus.Basic
import EmbedMq.Foundation.Threads

/-!
# The atomic actions of the bus

Every entry point of the bus is a sequence of actions that other threads may come
between: the sections under one of the mutexes, the steps on an atomic counter, the
transmissions, the invocations of handlers and the fulfilments of promises. Decoding
a frame and the other work on a thread's own data goes with the action before it.

An action is given what its thread has found out so far, and answers with what the
thread does next.
-/

namespace EmbedMq

open MessageBus (Call RetryJob)
open MessageCodec (EncodeArgs DecodeResult encode encodeHeaderInto publishSlices)

/-- The entry points that are a single section. -/
inductive Setting where
  | peerDiscovered (peer : PeerInfo)
  | peerUpdated (peer : PeerInfo)
  | peerLost (peerId : UInt16)
  | removeLocalSubscription (subId : UInt64)
  | createReplier (service : Bytes) (handler : Nat)
  | removeServiceHandler (service : Bytes)
  | setChecksumEnabled (on : Bool)
  | setRetainedLimits (ttlMs maxCount : UInt32)
  | start

def Setting.apply : Setting → MessageBus → MessageBus
  | peerDiscovered peer, bus => bus.onPeerDiscovered peer
  | peerUpdated peer, bus => bus.onPeerUpdated peer
  | peerLost peerId, bus => bus.onPeerLost peerId
  | removeLocalSubscription subId, bus => bus.removeLocalSubscription subId
  | createReplier service handler, bus => bus.createReplier service handler
  | removeServiceHandler service, bus => bus.removeServiceHandler service
  | setChecksumEnabled on, bus => { bus with crcEnabled := on }
  | setRetainedLimits ttlMs maxCount, bus =>
      { bus with retainedStore := bus.retainedStore.configure ttlMs maxCount }
  | start, bus => { bus with running := true }

inductive Action where
  /-- `seqCounter_++` at the beginning of `publish`. -/
  | publish (topic payload : Bytes) (qos : QoSProfile) (flags : UInt8)
  | deliverWill (topic payload : Bytes) (retainWill : Bool) (sourceId : UInt16)
  /-- `retainedStore_.store`, if the flags ask for it. -/
  | store (flags : UInt8) (msg : ReceivedMessage) (lifespanMs : UInt32)
  | route (msg : ReceivedMessage)
  /-- The targets of a message, under `peerMutex_`. -/
  | selectTargets (topic payload : Bytes) (qos : QoSProfile) (flags : UInt8)
  /-- Number, encode and send the frame for one target. -/
  | sendTo (topic payload : Bytes) (qos : QoSProfile) (flags : UInt8) (ep : Endpoint)
  | addPending (seqId : UInt32) (data : Bytes) (qos : QoSProfile) (dest : Endpoint)
  /-- Decode a frame. -/
  | receive (source : Endpoint) (data : Bytes)
  | onAck (seqId : UInt32)
  | onNack (seqId : UInt32)
  | onPubrec (source : Endpoint) (seqId : UInt32)
  | sendPubrel (source : Endpoint) (seqId : UInt32)
  | addPendingRel (seqId : UInt32) (data : Bytes) (dest : Endpoint)
  | onPubcomp (seqId : UInt32)
  | sendCtrl (dest : Endpoint) (type : MessageType) (seqId : UInt32)
  | isDuplicate (source : Endpoint) (r : DecodeResult)
  /-- Look for a cached reply; a reply that is found is sent under `replyCacheMutex_`. -/
  | findReply (source : Endpoint) (r : DecodeResult)
  | findHandler (source : Endpoint) (r : DecodeResult)
  | runHandler (source : Endpoint) (r : DecodeResult) (handler : Nat)
  | cacheReply (source : Endpoint) (r : DecodeResult) (response : Bytes)
  | sendReply (dest : Endpoint) (corrId : UInt32) (payload : Bytes) (qos : QoSProfile)
  /-- Take the promise that a REPLY is for out of `pendingRequests_`. -/
  | takeReplied (corrId : UInt32) (payload : Bytes)
  /-- Look for a local handler. -/
  | sendRequest (service payload : Bytes) (qos : QoSProfile) (corrId : UInt32)
      (timeoutOverride : Int)
  | runLocal (service payload : Bytes) (corrId : UInt32) (handler : Nat)
  /-- Register the request in `pendingRequests_`. -/
  | addRequest (service payload : Bytes) (qos : QoSProfile) (corrId : UInt32)
      (timeoutOverride : Int)
  | dispatchRequest (service payload : Bytes) (qos : QoSProfile) (corrId : UInt32)
  /-- `!sent && !canDiscover`. -/
  | checkProvider (service : Bytes) (corrId : UInt32) (sent : Bool)
  | takeUnprovided (service : Bytes) (corrId : UInt32)
  | cancelPendingRequest (corrId : UInt32)
  /-- Fulfil a promise that was taken out of `pendingRequests_`. -/
  | settle (corrId : UInt32) (outcome : Settlement)
  | tick
  | processTimeouts
  | cleanupDedupWindow
  | expireRetained
  | expireReplyCache
  /-- The section of the periodic task under `pendingReqMutex_`. -/
  | sweepRequests
  | retryRequest (job : RetryJob)
  /-- `running_.exchange(false)`. -/
  | stop
  | clearRequests
  | addSubscription (pattern : Bytes) (callback : Nat) (qos : QoSProfile)
  | replayRetained (pattern : Bytes) (callback : Nat)
  | setting (change : Setting)

namespace Action

/-! ### What a received frame asks for -/

/-- After the duplicate check, by the type of the frame. -/
def dispatched (source : Endpoint) (r : DecodeResult) : List Action :=
  match MessageType.ofByte r.header.msgType with
  | .publish =>
      let retained : ReceivedMessage :=
        { topic := r.topic, payload := r.payload, sourceId := r.header.sourceId,
          sequenceId := r.header.sequenceId }
      [.store r.header.flags retained 0, .route (MessageBus.publishedMessage r)]
  | .request => [.findReply source r]
  | .reply =>
      (if QoSLevel.reliable ≤ QoSLevel.ofByte r.header.qosLevel then
        [.sendCtrl source .ack r.header.sequenceId] else []) ++
        [.takeReplied r.header.correlationId r.payload]
  | _ => []

/-- The answer to a PUBLISH, which is sent before the duplicate check. -/
def answered (source : Endpoint) (r : DecodeResult) : List Action :=
  match MessageType.ofByte r.header.msgType, QoSLevel.ofByte r.header.qosLevel with
  | .publish, .exactlyOnce => [.sendCtrl source .pubrec r.header.sequenceId]
  | .publish, .reliable => [.sendCtrl source .ack r.header.sequenceId]
  | _, _ => []

def received (source : Endpoint) (r : DecodeResult) : List Action :=
  if r.valid then
    match MessageType.ofByte r.header.msgType with
    | .ack => [.onAck r.header.sequenceId]
    | .nack => [.onNack r.header.sequenceId]
    | .pubrec => [.onPubrec source r.header.sequenceId]
    | .pubrel => [.sendCtrl source .pubcomp r.header.sequenceId]
    | .pubcomp => [.onPubcomp r.header.sequenceId]
    | _ => answered source r ++
        if QoSLevel.ofByte r.header.qosLevel = .exactlyOnce then [.isDuplicate source r]
        else dispatched source r
  else []

/-! ### Running an action -/

/-- The first transmission of a frame to one target, and its registration. -/
def runSendTo (env : Env) (topic payload : Bytes) (qos : QoSProfile) (flags : UInt8)
    (ep : Endpoint) (bus : MessageBus) : Outcome MessageBus Action Effect :=
  let number := bus.seqCounter
  let seqId := UInt32.ofNat number
  let args := bus.publishArgs topic payload qos flags seqId
  let bus := { bus with seqCounter := number + 1 }
  if QoSLevel.reliable ≤ qos.level then
    let data := encode args (env.stamp seqId)
    { state := bus, effects := [.frame number ep [data]], next := [.addPending seqId data qos ep] }
  else
    let headerBuf := (encodeHeaderInto [] args (env.stamp seqId)).2
    { state := bus, effects := [.frame number ep (publishSlices headerBuf topic payload)] }

def runSendReply (env : Env) (dest : Endpoint) (corrId : UInt32) (payload : Bytes)
    (qos : QoSProfile) (bus : MessageBus) : Outcome MessageBus Action Effect :=
  let number := bus.seqCounter
  let seqId := UInt32.ofNat number
  let data := encode (bus.replyArgs payload qos corrId seqId) (env.stamp seqId)
  { state := { bus with seqCounter := number + 1 }
    effects := [.frame number dest [data]]
    next := if QoSLevel.reliable ≤ qos.level then [.addPending seqId data qos dest] else [] }

/-- Take the promise under a number, if it is still there, and fulfil it. -/
def runTake (corrId : UInt32) (outcome : Settlement) (bus : MessageBus) :
    Outcome MessageBus Action Effect :=
  match bus.pendingRequests.lookup corrId with
  | some _ =>
      { state := { bus with pendingRequests := bus.pendingRequests.erase corrId }
        next := [.settle corrId outcome] }
  | none => { state := bus }

def requestTimedOut : Settlement := .exception (ascii "request timeout".toList)

def busStopped : Settlement := .exception (ascii "bus stopped".toList)

def noProvider (service : Bytes) : Settlement :=
  .exception (ascii "no provider for service: ".toList ++ service)

def request (r : DecodeResult) : ReceivedMessage where
  topic := MessageBus.serviceName r.topic
  payload := r.payload
  sourceId := r.header.sourceId
  sequenceId := r.header.sequenceId
  correlationId := r.header.correlationId

def run (env : Env) : Action → MessageBus → Outcome MessageBus Action Effect
  | publish topic payload qos flags, bus =>
      let msg : ReceivedMessage :=
        { topic, payload, sourceId := bus.nodeId, sequenceId := UInt32.ofNat bus.seqCounter }
      { state := { bus with seqCounter := bus.seqCounter + 1 }
        next := [.store flags msg qos.lifespanMs, .route msg,
          .selectTargets topic payload qos flags] }
  | deliverWill topic payload retainWill sourceId, bus =>
      let msg : ReceivedMessage :=
        { topic, payload, sourceId, sequenceId := UInt32.ofNat bus.seqCounter }
      { state := { bus with seqCounter := bus.seqCounter + 1 }
        next := [.store (if retainWill then MsgFlags.retain else 0) msg 0, .route msg] }
  | store flags msg lifespanMs, bus => { state := bus.retain env flags msg lifespanMs }
  | route msg, bus => { state := bus, effects := [bus.route msg] }
  | selectTargets topic payload qos flags, bus =>
      let eps := bus.targets env fun sub =>
        TopicRouter.matchWildcard sub topic || decide (sub = topic)
      { state := bus, next := eps.map (.sendTo topic payload qos flags) }
  | sendTo topic payload qos flags ep, bus => runSendTo env topic payload qos flags ep bus
  | addPending seqId data qos dest, bus =>
      let engine := bus.qosEngine.addPending seqId data qos dest (env.sent seqId)
      { state := { bus with qosEngine := engine }, effects := [.register seqId dest data qos] }
  | receive source data, bus =>
      { state := bus, next := received source (MessageCodec.decode bus.sizeT data) }
  | onAck seqId, bus => { state := { bus with qosEngine := bus.qosEngine.onAck seqId } }
  | onNack seqId, bus =>
      let (engine, resends) := bus.qosEngine.onNack seqId (env.sent seqId)
      { state := { bus with qosEngine := engine }, effects := resends.map .resend }
  | onPubrec source seqId, bus =>
      { state := { bus with qosEngine := (bus.qosEngine.onPubrec seqId).2 }
        next := [.sendPubrel source seqId] }
  | sendPubrel source seqId, bus =>
      let rel := encode (bus.controlArgs .pubrel seqId .exactlyOnce) (env.stamp seqId)
      { state := bus, effects := [.answer source rel], next := [.addPendingRel seqId rel source] }
  | addPendingRel seqId data dest, bus =>
      let engine := bus.qosEngine.addPendingRel seqId data .exactlyOnce dest (env.sent seqId)
      { state := { bus with qosEngine := engine } }
  | onPubcomp seqId, bus =>
      { state := { bus with qosEngine := bus.qosEngine.onPubcomp seqId } }
  | sendCtrl dest type seqId, bus =>
      { state := bus, effects := [bus.sendCtrl env dest type seqId] }
  | isDuplicate source r, bus =>
      let (duplicate, engine) :=
        bus.qosEngine.isDuplicate r.header.sourceId r.header.sequenceId env.now
      { state := { bus with qosEngine := engine }
        next := if duplicate then [] else dispatched source r }
  | findReply source r, bus =>
      let corrId := r.header.correlationId
      match bus.replyCache.lookup (MessageBus.replyKey r.header.sourceId corrId) with
      | some cached =>
          let (bus, effects) :=
            bus.sendReply env source corrId cached.response cached.qos false
          { state := bus, effects }
      | none => { state := bus, next := [.findHandler source r] }
  | findHandler source r, bus =>
      match bus.serviceHandlers.lookup (MessageBus.serviceName r.topic) with
      | some handler => { state := bus, next := [.runHandler source r handler] }
      | none => { state := bus }
  | runHandler source r handler, bus =>
      let response := env.invoke handler (request r)
      { state := bus, effects := [.handle handler (request r) response]
        next := [.cacheReply source r response] }
  | cacheReply source r response, bus =>
      let corrId := r.header.correlationId
      let qos : QoSProfile := { level := QoSLevel.ofByte r.header.qosLevel }
      let key := MessageBus.replyKey r.header.sourceId corrId
      let cached : CachedReply := { response, qos, cachedAt := env.now }
      { state := { bus with replyCache := bus.replyCache.insert key cached }
        next := [.sendReply source corrId response qos] }
  | sendReply dest corrId payload qos, bus => runSendReply env dest corrId payload qos bus
  | takeReplied corrId payload, bus => runTake corrId (.value payload) bus
  | sendRequest service payload qos corrId timeoutOverride, bus =>
      match bus.serviceHandlers.lookup service with
      | some handler => { state := bus, next := [.runLocal service payload corrId handler] }
      | none => { state := bus, next := [.addRequest service payload qos corrId timeoutOverride] }
  | runLocal service payload corrId handler, bus =>
      let req : ReceivedMessage :=
        { topic := service, payload, sourceId := bus.nodeId,
          sequenceId := UInt32.ofNat bus.seqCounter, correlationId := corrId }
      let response := env.invoke handler req
      { state := { bus with seqCounter := bus.seqCounter + 1 }
        effects := [.handle handler req response]
        next := [.settle corrId (.value response)] }
  | addRequest service payload qos corrId timeoutOverride, bus =>
      let pr := MessageBus.pendingRequest env service payload qos corrId timeoutOverride
      { state := { bus with pendingRequests := bus.pendingRequests.insert corrId pr }
        next := [.dispatchRequest service payload qos corrId] }
  | dispatchRequest service payload qos corrId, bus =>
      let (sent, bus, effects) := bus.dispatchRequest env service payload qos corrId
      { state := bus, effects, next := [.checkProvider service corrId sent] }
  | checkProvider service corrId sent, bus =>
      let canDiscover :=
        env.active MessageBus.udp || env.active MessageBus.tcp || env.active MessageBus.shm
      { state := bus
        next := if !sent && !canDiscover then [.takeUnprovided service corrId] else [] }
  | takeUnprovided service corrId, bus => runTake corrId (noProvider service) bus
  | cancelPendingRequest corrId, bus => { state := bus.cancelPendingRequest corrId }
  | settle corrId outcome, bus => { state := bus, effects := [.settle corrId outcome] }
  | tick, bus =>
      { state := bus
        next := [.processTimeouts, .cleanupDedupWindow, .expireRetained, .expireReplyCache,
          .sweepRequests] }
  | processTimeouts, bus =>
      let result := bus.qosEngine.processTimeouts env.now env.sent
      { state := { bus with qosEngine := result.engine }
        effects := result.resends.map .resend ++ result.resendRels.map .resendRel ++
          [.abandoned result.abandoned] }
  | cleanupDedupWindow, bus =>
      { state := { bus with qosEngine := bus.qosEngine.cleanupDedupWindow env.now }
        effects := (bus.qosEngine.idleSources env.now).map .evict }
  | expireRetained, bus =>
      { state := { bus with retainedStore := bus.retainedStore.expire env.now } }
  | expireReplyCache, bus => { state := bus.expireReplyCache env }
  | sweepRequests, bus =>
      { state := bus.sweepRequests env
        next := (bus.retryJobs env).map .retryRequest ++
          (bus.expiredRequests env).map fun corrId => .settle corrId requestTimedOut }
  | retryRequest job, bus =>
      let (_, bus, effects) :=
        bus.dispatchRequest env job.service job.payload job.qos job.corrId
      { state := bus, effects }
  | stop, bus =>
      if bus.running then { state := { bus with running := false }, next := [.clearRequests] }
      else { state := bus }
  | clearRequests, bus =>
      { state := { bus with pendingRequests := ∅ }
        effects := bus.pendingRequests.toList.map fun entry => .settle entry.1 busStopped }
  | addSubscription pattern callback qos, bus =>
      { state := { bus with router := (bus.router.addSubscription pattern callback qos).2 }
        next := if qos.durability = .transientLocal then [.replayRetained pattern callback]
          else [] }
  | replayRetained pattern callback, bus =>
      { state := bus
        effects := ((bus.retainedStore.get pattern).map (Effect.replay callback)).toList }
  | setting change, bus => { state := change.apply bus }

/-- The action that an entry point begins with. -/
def ofCall : Call → Action
  | .publish topic payload qos flags => publish topic payload qos flags
  | .received source data => receive source data
  | .sendRequest service payload qos corrId timeout =>
      sendRequest service payload qos corrId timeout
  | .cancelPendingRequest corrId => cancelPendingRequest corrId
  | .tick => tick
  | .peerDiscovered peer => setting (.peerDiscovered peer)
  | .peerUpdated peer => setting (.peerUpdated peer)
  | .peerLost peerId => setting (.peerLost peerId)
  | .deliverWill topic payload retainWill sourceId =>
      deliverWill topic payload retainWill sourceId
  | .createSubscriber pattern callback qos => addSubscription pattern callback qos
  | .removeLocalSubscription subId => setting (.removeLocalSubscription subId)
  | .createReplier service handler => setting (.createReplier service handler)
  | .removeServiceHandler service => setting (.removeServiceHandler service)
  | .setChecksumEnabled on => setting (.setChecksumEnabled on)
  | .setRetainedLimits ttlMs maxCount => setting (.setRetainedLimits ttlMs maxCount)
  | .start => setting .start
  | .stop => stop

end Action

/-! ### Interleavings -/

/-- Any number of calls in progress on one bus. -/
abbrev BusThreads := Threads MessageBus Env Action

/-- An action that was run on the bus. -/
abbrev BusEvent := Event MessageBus Env Action

namespace BusThreads

/-- The bus as its constructor leaves it. -/
def Initial (bus : MessageBus) : Prop :=
  bus = { nodeId := bus.nodeId, localHostName := bus.localHostName, sizeT := bus.sizeT }

/-- A call begins with an entry point. -/
def Entry (actions : List Action) : Prop := ∃ call, actions = [Action.ofCall call]

def system : TransitionSystem BusThreads (Threads.Label Env Action) :=
  Threads.system Action.run Initial Entry

/-! ### Schedules -/

/-- A call begins, or one that is in progress runs its next action. -/
inductive Move where
  | begin (call : Call)
  | go (i : Nat) (env : Env)

/-- A call runs several actions in a row. -/
def Move.run (n i : Nat) (env : Env) : List Move := List.replicate n (.go i env)

def Move.label : Move → Threads.Label Env Action
  | begin call => .start [Action.ofCall call]
  | go i env => .step i env

/-- A bus right after its construction. -/
def fresh : MessageBus := { nodeId := 1, localHostName := [] }

theorem initial_fresh : Initial fresh := rfl

/-- The surroundings of an action at a given time, with all transports active. -/
def clock (now : Int) : Env where
  now := now
  sent _ := now
  stamp _ := 0
  active _ := true
  invoke _ _ := []

/-- The bus before the first call. -/
def idle (bus : MessageBus) : BusThreads := ⟨bus, [], []⟩

/-- The state after the moves of a list. -/
def after (bus : MessageBus) (moves : List Move) : BusThreads :=
  (moves.map Move.label).foldl (Threads.next Action.run) (idle bus)

theorem after_reachable {cond : BusThreads → Threads.Label Env Action → Prop} {bus : MessageBus}
    {moves : List Move} (hinit : Initial bus)
    (hruns : Threads.Runs Action.run (idle bus) (moves.map Move.label) = true)
    (halong : Threads.Along Action.run cond (idle bus) (moves.map Move.label)) :
    (system.restrict cond).Reachable (after bus moves) := by
  refine Threads.reachable_of_runs (.init ⟨hinit, rfl, rfl⟩) hruns ?_ halong
  intro actions hmem
  obtain ⟨move, _, hlabel⟩ := List.mem_map.mp hmem
  cases move with
  | begin call => exact ⟨call, (Threads.Label.start.inj hlabel).symm⟩
  | go i env => cases hlabel

end BusThreads

end EmbedMq
