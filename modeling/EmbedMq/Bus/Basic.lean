import EmbedMq.Bus.RetainedStore
import EmbedMq.Bus.TopicRouter
import EmbedMq.Codec.Basic
import EmbedMq.Qos.Engine

/-!
# The message bus

`MessageBus` of `message_bus.h` and `message_bus.cpp`. Every entry point is a
function from the bus to the bus afterwards and the list of its effects, in
order: frames handed to the transport, messages handed to the local router,
service handlers that run, requests that are settled.

A call is given its surroundings as an `Env`: what the clocks show, which
transports are active, and what the service handlers return. The sequence counter
is a natural number that is never reduced; the number that goes into a frame is
its low half, as the wrapping counter of the source has it.
-/

namespace EmbedMq

structure PeerInfo where
  id : UInt16
  name : Bytes
  hostName : Bytes
  endpoints : List Endpoint
  publishedTopics : List Bytes
  subscribedTopics : List Bytes
  hasWill : Bool := false
  willTopic : Bytes := []
  willPayload : Bytes := []
  willRetain : Bool := false
  willQos : UInt8 := 0
  deriving DecidableEq

/-- How a promise is fulfilled: a value, or an exception with its text. -/
inductive Settlement where
  | value (payload : Bytes)
  | exception (what : Bytes)
  deriving DecidableEq

inductive Effect where
  /-- First transmission of a frame that took `number` from the sequence counter. -/
  | frame (number : Nat) (dest : Endpoint) (slices : List Bytes)
  /-- An ACK, PUBREC, PUBREL or PUBCOMP. -/
  | answer (dest : Endpoint) (data : Bytes)
  /-- A repetition out of `pending`. -/
  | resend (r : Resend)
  /-- A repetition out of `pendingRel`. -/
  | resendRel (r : Resend)
  /-- A frame is registered in `pending`. -/
  | register (seqId : UInt32) (dest : Endpoint) (data : Bytes) (qos : QoSProfile)
  /-- What `processTimeouts` returns. -/
  | abandoned (ids : List UInt32)
  /-- The window of a source is removed. -/
  | evict (source : UInt16)
  /-- `router_.route(msg.topic, msg)`, with the callbacks it invokes. -/
  | route (msg : ReceivedMessage) (callbacks : List Nat)
  /-- A retained message handed to a new subscriber. -/
  | replay (callback : Nat) (msg : ReceivedMessage)
  | handle (handler : Nat) (request : ReceivedMessage) (response : Bytes)
  | settle (corrId : UInt32) (outcome : Settlement)
  deriving DecidableEq

/-- What the transport is given by an effect. -/
def Effect.packet : Effect → Option (Endpoint × Bytes)
  | frame _ dest slices => some (dest, slices.flatten)
  | answer dest data => some (dest, data)
  | resend r => some (r.dest, r.data)
  | resendRel r => some (r.dest, r.data)
  | _ => none

/-- The surroundings of a call. -/
structure Env where
  /-- The steady clock, in nanoseconds. -/
  now : Int
  /-- The steady clock when the frame with a given number is registered or sent again. -/
  sent : UInt32 → Int
  /-- The timestamp that the encoder puts into the frame with a given number. -/
  stamp : UInt32 → UInt64
  /-- `TransportManager::isActive`. -/
  active : Bytes → Bool
  /-- The response of a service handler. -/
  invoke : Nat → ReceivedMessage → Bytes
  /-- What a signed 64-bit operation yields when its result does not fit; this is undefined, and
  most often wraps around. -/
  overflow : Int → Int := fun n => n.bmod (2 ^ 64)

/-- The result of a signed 64-bit operation. -/
def Env.int64 (env : Env) (n : Int) : Int :=
  if -2 ^ 63 ≤ n ∧ n < 2 ^ 63 then n else env.overflow n

structure CachedReply where
  response : Bytes
  qos : QoSProfile
  cachedAt : Int
  deriving DecidableEq

structure PendingRequest where
  deadline : Int
  remote : Bool := false
  service : Bytes
  payload : Bytes
  qos : QoSProfile
  corrId : UInt32 := 0
  nextRetry : Int
  retryInterval : Int := 0
  deriving DecidableEq

structure MessageBus where
  nodeId : UInt16
  localHostName : Bytes
  /-- The width of `size_t` on the platform of the node. -/
  sizeT : SizeT := .bits64
  router : TopicRouter := {}
  qosEngine : QoSEngine := {}
  retainedStore : RetainedStore := {}
  seqCounter : Nat := 1
  crcEnabled : Bool := true
  pendingRequests : Table UInt32 PendingRequest := ∅
  serviceHandlers : Table Bytes Nat := ∅
  replyCache : Table UInt64 CachedReply := ∅
  peers : Table UInt16 PeerInfo := ∅
  running : Bool := false

namespace MessageBus

open MessageCodec (EncodeArgs DecodeResult encode encodeHeaderInto publishSlices)

/-! ### Endpoints and frames -/

def shm : Bytes := ascii ['s', 'h', 'm']
def tcp : Bytes := ascii ['t', 'c', 'p']
def udp : Bytes := ascii ['u', 'd', 'p']

/-- The first endpoint of a transport type. -/
def firstOf (peer : PeerInfo) (transportType : Bytes) : Option Endpoint :=
  peer.endpoints.find? fun ep => ep.transportType = transportType

def defaultEndpoint : Endpoint := { address := [], transportType := [] }

def selectEndpoint (env : Env) (bus : MessageBus) (peer : PeerInfo) : Endpoint :=
  let shmEp := (firstOf peer shm).filter fun ep =>
    !ep.address.isEmpty && !bus.localHostName.isEmpty &&
      decide (peer.hostName = bus.localHostName) && env.active shm
  let tcpEp := (firstOf peer tcp).filter fun ep => !ep.address.isEmpty && env.active tcp
  (shmEp.or (tcpEp.or (firstOf peer udp))).getD (peer.endpoints.headD defaultEndpoint)

/-- The endpoints of the peers with a subscription that `matching` accepts. -/
def targets (env : Env) (bus : MessageBus) (matching : Bytes → Bool) : List Endpoint :=
  bus.peers.toList.filterMap fun entry =>
    if entry.2.subscribedTopics.any matching && !entry.2.endpoints.isEmpty then
      some (bus.selectEndpoint env entry.2)
    else none

/-- The arguments of a control frame. -/
def controlArgs (bus : MessageBus) (type : MessageType) (seqId : UInt32)
    (qos : QoSProfile := {}) : EncodeArgs :=
  { type, sourceId := bus.nodeId, destId := 0, topic := [], payload := [], qos,
    sequenceId := seqId, withCrc := bus.crcEnabled }

/-- `sendCtrl`, and with type ACK also `sendAck`. -/
def sendCtrl (env : Env) (bus : MessageBus) (dest : Endpoint) (type : MessageType)
    (seqId : UInt32) : Effect :=
  .answer dest (encode (bus.controlArgs type seqId) (env.stamp seqId))

def sendAck (env : Env) (bus : MessageBus) (dest : Endpoint) (seqId : UInt32) : Effect :=
  sendCtrl env bus dest .ack seqId

/-! ### Publishing -/

def publishArgs (bus : MessageBus) (topic payload : Bytes) (qos : QoSProfile) (flags : UInt8)
    (seqId : UInt32) : EncodeArgs :=
  { type := .publish, sourceId := bus.nodeId, destId := 0xFFFF, topic, payload, qos,
    sequenceId := seqId, flags, withCrc := bus.crcEnabled }

/-- One target of a message. A reliable frame is kept for repetition; otherwise header,
topic and payload go out as slices, whether or not the header could be encoded. -/
def publishOne (env : Env) (topic payload : Bytes) (qos : QoSProfile) (flags : UInt8)
    (ep : Endpoint) (bus : MessageBus) : MessageBus × List Effect :=
  let number := bus.seqCounter
  let seqId := UInt32.ofNat number
  let args := bus.publishArgs topic payload qos flags seqId
  let bus := { bus with seqCounter := number + 1 }
  if QoSLevel.reliable ≤ qos.level then
    let data := encode args (env.stamp seqId)
    let engine := bus.qosEngine.addPending seqId data qos ep (env.sent seqId)
    ({ bus with qosEngine := engine }, [.frame number ep [data], .register seqId ep data qos])
  else
    let headerBuf := (encodeHeaderInto [] args (env.stamp seqId)).2
    (bus, [.frame number ep (publishSlices headerBuf topic payload)])

/-- The loop over the targets. -/
def publishTo (env : Env) (topic payload : Bytes) (qos : QoSProfile) (flags : UInt8) :
    List Endpoint → MessageBus → MessageBus × List Effect
  | [], bus => (bus, [])
  | ep :: rest, bus =>
      let (bus, effects) := bus.publishOne env topic payload qos flags ep
      let (bus, more) := publishTo env topic payload qos flags rest bus
      (bus, effects ++ more)

/-- Store a message under its topic if the flags ask for it. -/
def retain (env : Env) (bus : MessageBus) (flags : UInt8) (msg : ReceivedMessage)
    (lifespanMs : UInt32) : MessageBus :=
  if flags &&& MsgFlags.retain ≠ 0 then
    { bus with retainedStore := bus.retainedStore.store msg.topic msg env.now lifespanMs }
  else bus

def route (bus : MessageBus) (msg : ReceivedMessage) : Effect :=
  .route msg (bus.router.route msg.topic)

def publish (env : Env) (topic payload : Bytes) (qos : QoSProfile) (flags : UInt8)
    (bus : MessageBus) : MessageBus × List Effect :=
  let seqId := UInt32.ofNat bus.seqCounter
  let bus := { bus with seqCounter := bus.seqCounter + 1 }
  let msg : ReceivedMessage := { topic, payload, sourceId := bus.nodeId, sequenceId := seqId }
  let bus := bus.retain env flags msg qos.lifespanMs
  let eps := bus.targets env fun sub =>
    TopicRouter.matchWildcard sub topic || decide (sub = topic)
  let (after, effects) := publishTo env topic payload qos flags eps bus
  (after, bus.route msg :: effects)

def deliverWill (env : Env) (topic payload : Bytes) (retainWill : Bool) (sourceId : UInt16)
    (bus : MessageBus) : MessageBus × List Effect :=
  let seqId := UInt32.ofNat bus.seqCounter
  let bus := { bus with seqCounter := bus.seqCounter + 1 }
  let msg : ReceivedMessage := { topic, payload, sourceId, sequenceId := seqId }
  let bus := bus.retain env (if retainWill then MsgFlags.retain else 0) msg 0
  (bus, [bus.route msg])

/-! ### Requests -/

/-- The text `$SVC/`. -/
def svcPrefix : Bytes := ascii ['$', 'S', 'V', 'C', '/']

def requestArgs (bus : MessageBus) (service payload : Bytes) (qos : QoSProfile) (corrId : UInt32)
    (seqId : UInt32) : EncodeArgs :=
  { type := .request, sourceId := bus.nodeId, destId := 0xFFFF, topic := svcPrefix ++ service,
    payload, qos, sequenceId := seqId, correlationId := corrId, withCrc := bus.crcEnabled }

/-- Send one REQUEST frame to every provider that is known now. -/
def dispatchRequest (env : Env) (service payload : Bytes) (qos : QoSProfile) (corrId : UInt32)
    (bus : MessageBus) : Bool × MessageBus × List Effect :=
  let eps := bus.targets env fun sub => decide (sub = svcPrefix ++ service)
  if eps.isEmpty then (false, bus, [])
  else
    let number := bus.seqCounter
    let seqId := UInt32.ofNat number
    let data := encode (bus.requestArgs service payload qos corrId seqId) (env.stamp seqId)
    (true, { bus with seqCounter := number + 1 }, eps.map fun ep => .frame number ep [data])

/-- `timeoutMs` of `sendRequest`: the caller's timeout, else derived from the profile.
The sum is taken in 32 bits and the product in 64. -/
def requestTimeoutMs (qos : QoSProfile) (timeoutOverride : Int) : UInt64 :=
  if 0 < timeoutOverride then UInt64.ofNat timeoutOverride.toNat
  else if qos.ackTimeoutMs ≠ 0 then qos.ackTimeoutMs.toUInt64 * (qos.maxRetries + 1).toUInt64
  else 5000

def millisecond : Int := 1000000

/-- How long to wait before a remote request is sent again. -/
def requestRetryInterval (qos : QoSProfile) : Int :=
  (if qos.ackTimeoutMs ≠ 0 then qos.ackTimeoutMs.toNat else 200) * millisecond

/-- `now + std::chrono::milliseconds(timeoutMs)`: the count is converted to the signed type, then
to nanoseconds. -/
def requestDeadline (env : Env) (timeoutMs : UInt64) : Int :=
  env.int64 (env.now + env.int64 (timeoutMs.toBitVec.toInt * millisecond))

/-- The entry that `sendRequest` makes. -/
def pendingRequest (env : Env) (service payload : Bytes) (qos : QoSProfile) (corrId : UInt32)
    (timeoutOverride : Int) : PendingRequest where
  deadline := requestDeadline env (requestTimeoutMs qos timeoutOverride)
  remote := true
  service := service
  payload := payload
  qos := qos
  corrId := corrId
  retryInterval := requestRetryInterval qos
  nextRetry := env.now + requestRetryInterval qos

def sendRequest (env : Env) (service payload : Bytes) (qos : QoSProfile) (corrId : UInt32)
    (timeoutOverride : Int) (bus : MessageBus) : MessageBus × List Effect :=
  match bus.serviceHandlers.lookup service with
  | some handler =>
      let req : ReceivedMessage :=
        { topic := service, payload, sourceId := bus.nodeId,
          sequenceId := UInt32.ofNat bus.seqCounter, correlationId := corrId }
      let response := env.invoke handler req
      ({ bus with seqCounter := bus.seqCounter + 1 },
        [.handle handler req response, .settle corrId (.value response)])
  | none =>
      let pr := pendingRequest env service payload qos corrId timeoutOverride
      let bus := { bus with pendingRequests := bus.pendingRequests.insert corrId pr }
      let (sent, bus, effects) := dispatchRequest env service payload qos corrId bus
      let canDiscover := env.active udp || env.active tcp || env.active shm
      if !sent && !canDiscover then
        ({ bus with pendingRequests := bus.pendingRequests.erase corrId },
          effects ++ [.settle corrId
            (.exception (ascii "no provider for service: ".toList ++ service))])
      else (bus, effects)

def cancelPendingRequest (corrId : UInt32) (bus : MessageBus) : MessageBus :=
  { bus with pendingRequests := bus.pendingRequests.erase corrId }

def replyArgs (bus : MessageBus) (payload : Bytes) (qos : QoSProfile) (corrId seqId : UInt32) :
    EncodeArgs :=
  { type := .reply, sourceId := bus.nodeId, destId := 0, topic := [], payload, qos,
    sequenceId := seqId, correlationId := corrId, withCrc := bus.crcEnabled }

def sendReply (env : Env) (dest : Endpoint) (corrId : UInt32) (payload : Bytes) (qos : QoSProfile)
    (registerRetransmit : Bool) (bus : MessageBus) : MessageBus × List Effect :=
  let number := bus.seqCounter
  let seqId := UInt32.ofNat number
  let data := encode (bus.replyArgs payload qos corrId seqId) (env.stamp seqId)
  let bus := { bus with seqCounter := number + 1 }
  if registerRetransmit ∧ QoSLevel.reliable ≤ qos.level then
    let engine := bus.qosEngine.addPending seqId data qos dest (env.sent seqId)
    ({ bus with qosEngine := engine },
      [.frame number dest [data], .register seqId dest data qos])
  else (bus, [.frame number dest [data]])

def replyKey (sourceId : UInt16) (corrId : UInt32) : UInt64 :=
  sourceId.toUInt64 <<< 32 ||| corrId.toUInt64

/-! ### Receiving -/

/-- The message that a PUBLISH frame hands to the router. -/
def publishedMessage (r : DecodeResult) : ReceivedMessage where
  topic := r.topic
  payload := r.payload
  timestamp := r.header.timestamp
  sourceId := r.header.sourceId
  sequenceId := r.header.sequenceId
  correlationId := r.header.correlationId

/-- The PUBLISH branch after the duplicate check. -/
def deliverPublish (env : Env) (r : DecodeResult) (bus : MessageBus) : MessageBus × List Effect :=
  let retained : ReceivedMessage :=
    { topic := r.topic, payload := r.payload, sourceId := r.header.sourceId,
      sequenceId := r.header.sequenceId }
  let bus := bus.retain env r.header.flags retained 0
  (bus, [bus.route (publishedMessage r)])

/-- The name after `$SVC/`, or the whole topic. -/
def serviceName (topic : Bytes) : Bytes :=
  if topic.take svcPrefix.length = svcPrefix then topic.drop svcPrefix.length else topic

/-- The REQUEST branch: a cached reply is sent once more, else the handler runs. -/
def serveRequest (env : Env) (source : Endpoint) (r : DecodeResult) (bus : MessageBus) :
    MessageBus × List Effect :=
  let svcName := serviceName r.topic
  let corrId := r.header.correlationId
  let key := replyKey r.header.sourceId corrId
  match bus.replyCache.lookup key with
  | some cached => sendReply env source corrId cached.response cached.qos false bus
  | none =>
      match bus.serviceHandlers.lookup svcName with
      | some handler =>
          let req : ReceivedMessage :=
            { topic := svcName, payload := r.payload, sourceId := r.header.sourceId,
              sequenceId := r.header.sequenceId, correlationId := corrId }
          let response := env.invoke handler req
          let qos : QoSProfile := { level := QoSLevel.ofByte r.header.qosLevel }
          let cached : CachedReply := { response, qos, cachedAt := env.now }
          let bus := { bus with replyCache := bus.replyCache.insert key cached }
          let (bus, effects) := sendReply env source corrId response qos true bus
          (bus, .handle handler req response :: effects)
      | none => (bus, [])

/-- The REPLY branch. -/
def completeRequest (env : Env) (source : Endpoint) (r : DecodeResult) (bus : MessageBus) :
    MessageBus × List Effect :=
  let acks := if QoSLevel.reliable ≤ QoSLevel.ofByte r.header.qosLevel then
      [bus.sendAck env source r.header.sequenceId] else []
  let corrId := r.header.correlationId
  match bus.pendingRequests.lookup corrId with
  | some _ =>
      ({ bus with pendingRequests := bus.pendingRequests.erase corrId },
        acks ++ [.settle corrId (.value r.payload)])
  | none => (bus, acks)

/-- What is done with a frame that is not a duplicate. -/
def dispatch (env : Env) (source : Endpoint) (r : DecodeResult) (bus : MessageBus) :
    MessageBus × List Effect :=
  match MessageType.ofByte r.header.msgType with
  | .publish => deliverPublish env r bus
  | .request => serveRequest env source r bus
  | .reply => completeRequest env source r bus
  | _ => (bus, [])

/-- The answer to a PUBLISH, which is sent before the duplicate check. -/
def publishAnswer (env : Env) (source : Endpoint) (r : DecodeResult) (bus : MessageBus) :
    List Effect :=
  match MessageType.ofByte r.header.msgType, QoSLevel.ofByte r.header.qosLevel with
  | .publish, .exactlyOnce => [bus.sendCtrl env source .pubrec r.header.sequenceId]
  | .publish, .reliable => [bus.sendAck env source r.header.sequenceId]
  | _, _ => []

/-- Frames that are not acknowledgements: answer, drop duplicates, dispatch. -/
def receiveData (env : Env) (source : Endpoint) (r : DecodeResult) (bus : MessageBus) :
    MessageBus × List Effect :=
  let answers := bus.publishAnswer env source r
  if QoSLevel.ofByte r.header.qosLevel = .exactlyOnce then
    let (duplicate, engine) :=
      bus.qosEngine.isDuplicate r.header.sourceId r.header.sequenceId env.now
    let bus := { bus with qosEngine := engine }
    if duplicate then (bus, answers)
    else
      let (bus, effects) := dispatch env source r bus
      (bus, answers ++ effects)
  else
    let (bus, effects) := dispatch env source r bus
    (bus, answers ++ effects)

/-- The PUBREC branch: the PUBREL is sent and registered, pending or not. -/
def receivePubrec (env : Env) (source : Endpoint) (seqId : UInt32) (bus : MessageBus) :
    MessageBus × List Effect :=
  let (_, engine) := bus.qosEngine.onPubrec seqId
  let relQos := QoSProfile.exactlyOnce
  let rel := encode (bus.controlArgs .pubrel seqId relQos) (env.stamp seqId)
  let engine := engine.addPendingRel seqId rel relQos source (env.sent seqId)
  ({ bus with qosEngine := engine }, [.answer source rel])

def onReceived (env : Env) (source : Endpoint) (data : Bytes) (bus : MessageBus) :
    MessageBus × List Effect :=
  let r := MessageCodec.decode bus.sizeT data
  if r.valid then
    let seqId := r.header.sequenceId
    match MessageType.ofByte r.header.msgType with
    | .ack => ({ bus with qosEngine := bus.qosEngine.onAck seqId }, [])
    | .nack =>
        let (engine, resends) := bus.qosEngine.onNack seqId (env.sent seqId)
        ({ bus with qosEngine := engine }, resends.map .resend)
    | .pubrec => receivePubrec env source seqId bus
    | .pubrel => (bus, [bus.sendCtrl env source .pubcomp seqId])
    | .pubcomp => ({ bus with qosEngine := bus.qosEngine.onPubcomp seqId }, [])
    | _ => receiveData env source r bus
  else (bus, [])

/-! ### The periodic task -/

def replyCacheTtl : Int := 30 * 1000000000

def expireReplyCache (env : Env) (bus : MessageBus) : MessageBus :=
  { bus with replyCache := bus.replyCache.sweep fun _ c =>
      if replyCacheTtl ≤ env.now - c.cachedAt then none else some c }

/-- A remote request that is to be sent again. -/
structure RetryJob where
  service : Bytes
  payload : Bytes
  qos : QoSProfile
  corrId : UInt32

def retryDue (now : Int) (pr : PendingRequest) : Bool :=
  decide (now < pr.deadline) && pr.remote && decide (pr.nextRetry ≤ now)

def retryJobs (env : Env) (bus : MessageBus) : List RetryJob :=
  bus.pendingRequests.toList.filterMap fun entry =>
    if retryDue env.now entry.2 then
      some ⟨entry.2.service, entry.2.payload, entry.2.qos, entry.2.corrId⟩
    else none

def expiredRequests (env : Env) (bus : MessageBus) : List UInt32 :=
  bus.pendingRequests.toList.filterMap fun entry =>
    if entry.2.deadline ≤ env.now then some entry.1 else none

def sweepRequests (env : Env) (bus : MessageBus) : MessageBus :=
  { bus with pendingRequests := bus.pendingRequests.sweep fun _ pr =>
      if pr.deadline ≤ env.now then none
      else if retryDue env.now pr then some { pr with nextRetry := env.now + pr.retryInterval }
      else some pr }

def dispatchAll (env : Env) : List RetryJob → MessageBus → MessageBus × List Effect
  | [], bus => (bus, [])
  | job :: rest, bus =>
      let (_, bus, effects) := dispatchRequest env job.service job.payload job.qos job.corrId bus
      let (bus, more) := dispatchAll env rest bus
      (bus, effects ++ more)

/-- The engine's part of the periodic task. -/
def tickEngine (env : Env) (bus : MessageBus) : MessageBus × List Effect :=
  let result := bus.qosEngine.processTimeouts env.now env.sent
  let sources := result.engine.idleSources env.now
  ({ bus with qosEngine := result.engine.cleanupDedupWindow env.now },
    result.resends.map .resend ++ result.resendRels.map .resendRel ++
      [.abandoned result.abandoned] ++ sources.map .evict)

/-- The task that `start` registers with the timer wheel. -/
def tick (env : Env) (bus : MessageBus) : MessageBus × List Effect :=
  let (bus, engineEffects) := tickEngine env bus
  let bus := { bus with retainedStore := bus.retainedStore.expire env.now }
  let bus := bus.expireReplyCache env
  let expired := bus.expiredRequests env
  let jobs := bus.retryJobs env
  let (bus, sent) := dispatchAll env jobs (bus.sweepRequests env)
  (bus, engineEffects ++ sent ++
    expired.map fun corrId => .settle corrId (.exception (ascii "request timeout".toList)))

def stop (bus : MessageBus) : MessageBus × List Effect :=
  if bus.running then
    ({ bus with running := false, pendingRequests := ∅ },
      bus.pendingRequests.toList.map fun entry =>
        .settle entry.1 (.exception (ascii "bus stopped".toList)))
  else (bus, [])

/-! ### Subscribers, services and peers -/

def createSubscriber (pattern : Bytes) (callback : Nat) (qos : QoSProfile) (bus : MessageBus) :
    MessageBus × List Effect :=
  let (_, router) := bus.router.addSubscription pattern callback qos
  let replayed :=
    if qos.durability = .transientLocal then
      ((bus.retainedStore.get pattern).map (Effect.replay callback)).toList
    else []
  ({ bus with router }, replayed)

def removeLocalSubscription (subId : UInt64) (bus : MessageBus) : MessageBus :=
  { bus with router := bus.router.removeSubscription subId }

def createReplier (service : Bytes) (handler : Nat) (bus : MessageBus) : MessageBus :=
  { bus with serviceHandlers := bus.serviceHandlers.insert service handler }

def removeServiceHandler (service : Bytes) (bus : MessageBus) : MessageBus :=
  { bus with serviceHandlers := bus.serviceHandlers.erase service }

def onPeerDiscovered (peer : PeerInfo) (bus : MessageBus) : MessageBus :=
  { bus with peers := bus.peers.insert peer.id peer }

def onPeerUpdated (peer : PeerInfo) (bus : MessageBus) : MessageBus :=
  { bus with peers := bus.peers.insert peer.id peer }

def onPeerLost (peerId : UInt16) (bus : MessageBus) : MessageBus :=
  { bus with peers := bus.peers.erase peerId }

/-! ### Calls -/

/-- The entry points of the bus. -/
inductive Call where
  | publish (topic payload : Bytes) (qos : QoSProfile) (flags : UInt8)
  | received (source : Endpoint) (data : Bytes)
  | sendRequest (service payload : Bytes) (qos : QoSProfile) (corrId : UInt32)
      (timeoutOverride : Int)
  | cancelPendingRequest (corrId : UInt32)
  | tick
  | peerDiscovered (peer : PeerInfo)
  | peerUpdated (peer : PeerInfo)
  | peerLost (peerId : UInt16)
  | deliverWill (topic payload : Bytes) (retainWill : Bool) (sourceId : UInt16)
  | createSubscriber (pattern : Bytes) (callback : Nat) (qos : QoSProfile)
  | removeLocalSubscription (subId : UInt64)
  | createReplier (service : Bytes) (handler : Nat)
  | removeServiceHandler (service : Bytes)
  | setChecksumEnabled (on : Bool)
  | setRetainedLimits (ttlMs maxCount : UInt32)
  | start
  | stop

def exec (env : Env) : Call → MessageBus → MessageBus × List Effect
  | .publish topic payload qos flags, bus => bus.publish env topic payload qos flags
  | .received source data, bus => bus.onReceived env source data
  | .sendRequest service payload qos corrId timeout, bus =>
      bus.sendRequest env service payload qos corrId timeout
  | .cancelPendingRequest corrId, bus => (bus.cancelPendingRequest corrId, [])
  | .tick, bus => bus.tick env
  | .peerDiscovered peer, bus => (bus.onPeerDiscovered peer, [])
  | .peerUpdated peer, bus => (bus.onPeerUpdated peer, [])
  | .peerLost peerId, bus => (bus.onPeerLost peerId, [])
  | .deliverWill topic payload retainWill sourceId, bus =>
      bus.deliverWill env topic payload retainWill sourceId
  | .createSubscriber pattern callback qos, bus => bus.createSubscriber pattern callback qos
  | .removeLocalSubscription subId, bus => (bus.removeLocalSubscription subId, [])
  | .createReplier service handler, bus => (bus.createReplier service handler, [])
  | .removeServiceHandler service, bus => (bus.removeServiceHandler service, [])
  | .setChecksumEnabled on, bus => ({ bus with crcEnabled := on }, [])
  | .setRetainedLimits ttlMs maxCount, bus =>
      ({ bus with retainedStore := bus.retainedStore.configure ttlMs maxCount }, [])
  | .start, bus => ({ bus with running := true }, [])
  | .stop, bus => bus.stop

end MessageBus

end EmbedMq
