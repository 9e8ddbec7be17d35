import EmbedMq.Bus.Frame
import EmbedMq.Bus.Services
import EmbedMq.Delivery.Retained

/-!
# What a call leaves in the tables

The routing table changes when a peer comes, changes or goes, and the local topics change when a
subscriber or a replier does; everything else leaves them alone. What is retained after a call
was retained before, or is a message that the call hands to the router.
-/

namespace EmbedMq.MessageBus

open MessageCodec (DecodeResult decode)

/-- A call that changes the routing table. -/
def Call.isPeerCall : Call → Bool
  | .peerDiscovered _ | .peerUpdated _ | .peerLost _ => true
  | _ => false

/-- A call that changes the subscriptions or the service handlers. -/
def Call.isTopicsCall : Call → Bool
  | .createSubscriber _ _ _ | .removeLocalSubscription _ | .createReplier _ _
  | .removeServiceHandler _ => true
  | _ => false

variable (env : Env) (bus : MessageBus)

/-- What the calls between which the tables are told apart leave alone. -/
structure SameRouting (bus after : MessageBus) : Prop where
  router : after.router = bus.router
  serviceHandlers : after.serviceHandlers = bus.serviceHandlers
  peers : after.peers = bus.peers

theorem onReceived_tables (source : Endpoint) (data : Bytes) :
    SameRouting bus (bus.onReceived env source data).1 := by
  have hdispatch : ∀ (b : MessageBus) (r : DecodeResult),
      SameRouting b (b.dispatch env source r).1 := by
    intro b r
    obtain ⟨_, _, _, _, _, h⟩ := dispatch_shape env b source r
    rw [h]
    exact ⟨rfl, rfl, rfl⟩
  generalize hr : decode bus.sizeT data = r
  refine onReceived_elim env hr ?_ ?_ ?_ ?_ ?_ ?_ ?_
  · exact fun _ => ⟨rfl, rfl, rfl⟩
  · exact fun _ _ => ⟨rfl, rfl, rfl⟩
  · exact fun _ _ => ⟨rfl, rfl, rfl⟩
  · exact fun _ _ => ⟨rfl, rfl, rfl⟩
  · exact fun _ _ => ⟨rfl, rfl, rfl⟩
  · exact fun _ _ => ⟨rfl, rfl, rfl⟩
  · intro _ _
    refine receiveData_elim env ?_ ?_ ?_
    · exact fun _ => hdispatch bus r
    · exact fun _ => ⟨rfl, rfl, rfl⟩
    · intro _
      obtain ⟨hrouter, hhandlers, hpeers⟩ := hdispatch (bus.afterCheck env r) r
      exact ⟨hrouter, hhandlers, hpeers⟩

theorem exec_tables {call : Call} (hpeer : call.isPeerCall = false)
    (htopics : call.isTopicsCall = false) : SameRouting bus (bus.exec env call).1 := by
  cases call with
  | received source data => exact onReceived_tables env bus source data
  | tick =>
      obtain ⟨n, _, _, _, h⟩ := tick_shape env bus
      simp only [exec, h]
      exact ⟨rfl, rfl, rfl⟩
  | publish topic payload qos flags =>
      obtain ⟨_, n, _, h⟩ := publish_shape env bus topic payload qos flags
      simp only [exec, h]
      exact ⟨rfl, rfl, rfl⟩
  | sendRequest service payload qos corrId timeout =>
      obtain ⟨n, _, h⟩ := sendRequest_shape env bus service payload qos corrId timeout
      simp only [exec, h]
      exact ⟨rfl, rfl, rfl⟩
  | deliverWill topic payload retainWill sourceId =>
      obtain ⟨_, h⟩ := deliverWill_shape env bus topic payload retainWill sourceId
      simp only [exec, h]
      exact ⟨rfl, rfl, rfl⟩
  | stop =>
      simp only [exec, stop]
      split
      · exact ⟨rfl, rfl, rfl⟩
      · exact ⟨rfl, rfl, rfl⟩
  | peerDiscovered _ | peerUpdated _ | peerLost _ => cases hpeer
  | createSubscriber _ _ _ | removeLocalSubscription _ | createReplier _ _
  | removeServiceHandler _ => cases htopics
  | _ => exact ⟨rfl, rfl, rfl⟩

theorem exec_peers {call : Call} (h : call.isPeerCall = false) :
    (bus.exec env call).1.peers = bus.peers := by
  cases htopics : call.isTopicsCall with
  | false => exact (exec_tables env bus h htopics).peers
  | true => cases call <;> first | rfl | cases htopics

theorem exec_localTopics {call : Call} (h : call.isTopicsCall = false) :
    (bus.exec env call).1.localTopics = bus.localTopics := by
  have hsame : (bus.exec env call).1.router = bus.router ∧
      (bus.exec env call).1.serviceHandlers = bus.serviceHandlers := by
    cases hpeer : call.isPeerCall with
    | false => exact ⟨(exec_tables env bus hpeer h).router,
        (exec_tables env bus hpeer h).serviceHandlers⟩
    | true => cases call <;> first | exact ⟨rfl, rfl⟩ | cases hpeer
  rw [localTopics, hsame.1, hsame.2, localTopics]

/-! ### Where a routed message comes from -/

/-- A call that hands this message to the router. -/
def RoutedBy (bus : MessageBus) (msg : ReceivedMessage) (call : Call) : Prop :=
  (∃ qos flags, call = .publish msg.topic msg.payload qos flags ∧ msg.sourceId = bus.nodeId) ∨
    (∃ source data, call = .received source data ∧ (decode bus.sizeT data).valid = true ∧
      MessageType.ofByte (decode bus.sizeT data).header.msgType = .publish ∧
      msg = publishedMessage (decode bus.sizeT data)) ∨
    ∃ retainWill, call = .deliverWill msg.topic msg.payload retainWill msg.sourceId

variable {env bus}

/-- The effects that hand a message to subscribers. -/
inductive IsDelivery : Effect → Prop
  | route (msg : ReceivedMessage) (callbacks : List Nat) : IsDelivery (.route msg callbacks)
  | replay (callback : Nat) (msg : ReceivedMessage) : IsDelivery (.replay callback msg)

section Routed

variable {effect : Effect} (hdelivery : IsDelivery effect)
include hdelivery

theorem serveRequest_delivery {source : Endpoint} {r : DecodeResult} :
    effect ∉ (bus.serveRequest env source r).2 := by
  simp only [serveRequest, sendReply]
  cases hdelivery with
  | route msg callbacks => repeat' split <;> simp
  | replay callback msg => repeat' split <;> simp

theorem completeRequest_delivery {source : Endpoint} {r : DecodeResult} :
    effect ∉ (bus.completeRequest env source r).2 := by
  simp only [completeRequest, sendAck, sendCtrl]
  cases hdelivery with
  | route msg callbacks => split <;> split <;> simp
  | replay callback msg => split <;> split <;> simp

theorem publishAnswer_delivery {source : Endpoint} {r : DecodeResult} :
    effect ∉ bus.publishAnswer env source r := by
  simp only [publishAnswer, sendAck, sendCtrl]
  cases hdelivery with
  | route msg callbacks => split <;> simp
  | replay callback msg => split <;> simp

/-- Dispatching a frame hands at most the message of a PUBLISH to the router. -/
theorem dispatch_delivery {source : Endpoint} {r : DecodeResult}
    (h : effect ∈ (bus.dispatch env source r).2) :
    MessageType.ofByte r.header.msgType = .publish ∧
      ∃ callbacks, effect = .route (publishedMessage r) callbacks := by
  simp only [dispatch] at h
  split at h
  · rename_i htype
    exact ⟨htype, _, List.mem_singleton.mp h⟩
  · exact absurd h (serveRequest_delivery hdelivery)
  · exact absurd h (completeRequest_delivery hdelivery)
  · exact absurd h List.not_mem_nil

theorem onReceived_delivery {source : Endpoint} {data : Bytes}
    (h : effect ∈ (bus.onReceived env source data).2) :
    (decode bus.sizeT data).valid = true ∧
      MessageType.ofByte (decode bus.sizeT data).header.msgType = .publish ∧
      ∃ callbacks, effect = .route (publishedMessage (decode bus.sizeT data)) callbacks := by
  generalize hr : decode bus.sizeT data = r
  have hanswer : ∀ {dest out}, effect ∉ [Effect.answer dest out] := by
    intro dest out hmem
    rw [List.mem_singleton.mp hmem] at hdelivery
    cases hdelivery
  revert h
  refine onReceived_elim env hr ?_ ?_ ?_ ?_ ?_ ?_ ?_
  · exact fun _ h => absurd h List.not_mem_nil
  · exact fun _ _ h => absurd h List.not_mem_nil
  · intro _ _ h
    obtain ⟨_, _, rfl⟩ := List.mem_map.mp h
    cases hdelivery
  · exact fun _ _ h => absurd h hanswer
  · exact fun _ _ h => absurd h hanswer
  · exact fun _ _ h => absurd h List.not_mem_nil
  · intro hvalid _
    have hsplit : ∀ {b : MessageBus},
        effect ∈ bus.publishAnswer env source r ++ (b.dispatch env source r).2 →
          effect ∈ (b.dispatch env source r).2 :=
      fun h => (List.mem_append.mp h).resolve_left (publishAnswer_delivery hdelivery)
    refine receiveData_elim env ?_ ?_ ?_
    · exact fun _ h => ⟨hvalid, dispatch_delivery hdelivery (hsplit h)⟩
    · exact fun _ h => absurd h (publishAnswer_delivery hdelivery)
    · exact fun _ h => ⟨hvalid, dispatch_delivery hdelivery (hsplit h)⟩

theorem sendRequest_delivery {service payload : Bytes} {qos : QoSProfile} {corrId : UInt32}
    {timeoutOverride : Int} :
    effect ∉ (bus.sendRequest env service payload qos corrId timeoutOverride).2 := by
  have hdispatch : ∀ b : MessageBus,
      effect ∉ (b.dispatchRequest env service payload qos corrId).2.2 := by
    intro b h
    obtain ⟨_, _, _, rfl⟩ := mem_dispatchRequest env b h
    cases hdelivery
  intro h
  simp only [sendRequest] at h
  split at h
  · cases hdelivery with
    | route msg callbacks => simp at h
    | replay callback msg => simp at h
  · split at h
    · obtain h | h := List.mem_append.mp h
      · exact hdispatch _ h
      · rw [List.mem_singleton.mp h] at hdelivery
        cases hdelivery
    · exact hdispatch _ h

theorem tick_delivery : effect ∉ (bus.tick env).2 := by
  intro h
  simp only [tick, tickEngine, List.mem_append, List.mem_map, List.mem_singleton] at h
  obtain ((((⟨_, _, rfl⟩ | ⟨_, _, rfl⟩) | rfl) | ⟨_, _, rfl⟩) | hmem) | ⟨_, _, rfl⟩ := h
  case inl.inr =>
    obtain ⟨_, _, _, rfl⟩ := dispatchAll_frames _ _ _ _ hmem
    cases hdelivery
  all_goals cases hdelivery

end Routed

/-- What a call does when it hands a message to subscribers. -/
theorem exec_delivery {call : Call} {effect : Effect} (h : effect ∈ (bus.exec env call).2)
    (hdelivery : IsDelivery effect) :
    (∃ msg callbacks, effect = .route msg callbacks ∧ RoutedBy bus msg call) ∨
      ∃ callback msg topic e, effect = .replay callback msg ∧
        bus.retainedEntry topic = some e ∧ e.msg = msg := by
  cases call with
  | publish topic payload qos flags =>
      cases hdelivery with
      | route msg callbacks =>
          obtain rfl := route_mem_publish env bus h
          exact .inl ⟨_, _, rfl, .inl ⟨qos, flags, rfl, rfl⟩⟩
      | replay callback msg =>
          obtain heq | hmem := List.mem_cons.mp h
          · cases heq
          · obtain ⟨_, _, _, heq⟩ | ⟨_, _, _, _, heq⟩ :=
              publishTo_effects env _ topic payload qos flags _ _ hmem
            · cases heq
            · cases heq
  | received source data =>
      obtain ⟨hvalid, htype, callbacks, rfl⟩ := onReceived_delivery hdelivery h
      exact .inl ⟨_, _, rfl, .inr (.inl ⟨source, data, rfl, hvalid, htype, rfl⟩)⟩
  | deliverWill topic payload retainWill sourceId =>
      simp only [exec, deliverWill, route, List.mem_singleton] at h
      exact .inl ⟨_, _, h, .inr (.inr ⟨retainWill, rfl⟩)⟩
  | sendRequest service payload qos corrId timeout =>
      exact absurd h (sendRequest_delivery hdelivery)
  | tick => exact absurd h (tick_delivery hdelivery)
  | createSubscriber pattern callback qos =>
      simp only [exec, createSubscriber] at h
      split at h
      · obtain ⟨msg, hget, rfl⟩ := Option.map_eq_some_iff.mp (Option.mem_toList.mp h)
        obtain ⟨e, he, rfl⟩ := Option.map_eq_some_iff.mp hget
        exact .inr ⟨callback, e.msg, pattern, e, rfl, he, rfl⟩
      · exact absurd h List.not_mem_nil
  | stop =>
      simp only [exec, stop] at h
      split at h
      · obtain ⟨_, _, rfl⟩ := List.mem_map.mp h
        cases hdelivery
      · exact absurd h List.not_mem_nil
  | _ => exact absurd h List.not_mem_nil

/-! ### Where a retained message comes from -/

/-- Topic, payload and source of a message. -/
structure SameMessage (msg msg' : ReceivedMessage) : Prop where
  topic : msg.topic = msg'.topic
  payload : msg.payload = msg'.payload
  sourceId : msg.sourceId = msg'.sourceId

/-- What is retained was retained before, or is handed to the router by the call. -/
def RetainedFrom (bus : MessageBus) (effects : List Effect) (e : RetainedEntry) : Prop :=
  (∃ topic old, bus.retainedEntry topic = some old ∧ old.msg = e.msg) ∨
    ∃ msg callbacks, .route msg callbacks ∈ effects ∧ SameMessage e.msg msg

theorem retain_from (env : Env) (bus : MessageBus) {flags : UInt8} {msg : ReceivedMessage}
    {lifespanMs : UInt32} {topic : Bytes} {e : RetainedEntry}
    (h : (bus.retain env flags msg lifespanMs).retainedEntry topic = some e) :
    bus.retainedEntry topic = some e ∨ e.msg = msg := by
  rw [retain] at h
  split at h
  · obtain hgone | ⟨-, stored, hstored, hmsg⟩ | ⟨-, hsame⟩ :=
      bus.retainedStore.store_lookup topic msg.topic msg env.now lifespanMs
    · rw [retainedEntry, hgone] at h
      cases h
    · rw [retainedEntry, hstored] at h
      obtain rfl := Option.some.inj h
      exact .inr hmsg
    · rw [retainedEntry, hsame] at h
      exact .inl h
  · exact .inl h

theorem publish_retained {topic' payload topic : Bytes} {qos : QoSProfile} {flags : UInt8}
    {e : RetainedEntry}
    (h : (bus.publish env topic' payload qos flags).1.retainedEntry topic = some e) :
    RetainedFrom bus (bus.publish env topic' payload qos flags).2 e := by
  simp only [publish] at h ⊢
  generalize targets env _ _ = eps at h ⊢
  obtain ⟨_, hshape⟩ := publishTo_shape env
    (retain env { bus with seqCounter := bus.seqCounter + 1 } flags
      { topic := topic', payload, sourceId := bus.nodeId,
        sequenceId := UInt32.ofNat bus.seqCounter } qos.lifespanMs)
    topic' payload qos flags eps
  rw [hshape] at h
  obtain hold | hmsg := retain_from env
    { bus with seqCounter := bus.seqCounter + 1 } h
  · exact .inl ⟨topic, e, hold, rfl⟩
  · exact .inr ⟨_, _, List.mem_cons_self, by rw [hmsg], by rw [hmsg], by rw [hmsg]⟩

theorem deliverWill_retained {topic' payload topic : Bytes} {retainWill : Bool} {sourceId : UInt16}
    {e : RetainedEntry}
    (h : (bus.deliverWill env topic' payload retainWill sourceId).1.retainedEntry topic = some e) :
    RetainedFrom bus (bus.deliverWill env topic' payload retainWill sourceId).2 e := by
  obtain hold | hmsg := retain_from env
    { bus with seqCounter := bus.seqCounter + 1 } h
  · exact .inl ⟨topic, e, hold, rfl⟩
  · exact .inr ⟨_, _, List.mem_singleton.mpr rfl, by rw [hmsg], by rw [hmsg], by rw [hmsg]⟩

theorem dispatch_retained (bus : MessageBus) {source : Endpoint} {r : DecodeResult}
    {topic : Bytes} {e : RetainedEntry}
    (h : (bus.dispatch env source r).1.retainedEntry topic = some e) :
    RetainedFrom bus (bus.dispatch env source r).2 e := by
  simp only [dispatch] at h ⊢
  split at h
  · obtain hold | hmsg := retain_from env bus h
    · exact .inl ⟨topic, e, hold, rfl⟩
    · exact .inr ⟨_, _, List.mem_singleton.mpr rfl, by rw [hmsg]; rfl, by rw [hmsg]; rfl,
        by rw [hmsg]; rfl⟩
  · obtain ⟨_, _, _, hshape⟩ := serveRequest_shape env bus source r
    rw [hshape] at h
    exact .inl ⟨topic, e, h, rfl⟩
  · obtain ⟨_, hshape⟩ := completeRequest_shape env bus source r
    rw [hshape] at h
    exact .inl ⟨topic, e, h, rfl⟩
  · exact .inl ⟨topic, e, h, rfl⟩

theorem onReceived_retained {source : Endpoint} {data topic : Bytes} {e : RetainedEntry}
    (h : (bus.onReceived env source data).1.retainedEntry topic = some e) :
    RetainedFrom bus (bus.onReceived env source data).2 e := by
  generalize hr : decode bus.sizeT data = r
  revert h
  refine onReceived_elim env hr ?_ ?_ ?_ ?_ ?_ ?_ ?_
  · exact fun _ h => .inl ⟨topic, e, h, rfl⟩
  · exact fun _ _ h => .inl ⟨topic, e, h, rfl⟩
  · exact fun _ _ h => .inl ⟨topic, e, h, rfl⟩
  · exact fun _ _ h => .inl ⟨topic, e, h, rfl⟩
  · exact fun _ _ h => .inl ⟨topic, e, h, rfl⟩
  · exact fun _ _ h => .inl ⟨topic, e, h, rfl⟩
  · intro _ _
    have happend : ∀ {b : MessageBus} {answers effects : List Effect},
        b.retainedStore = bus.retainedStore → RetainedFrom b effects e →
          RetainedFrom bus (answers ++ effects) e := by
      rintro b answers effects hstore (⟨topic', old, hold, hmsg⟩ | ⟨msg, callbacks, hmem, hsame⟩)
      · exact .inl ⟨topic', old, by rwa [retainedEntry, hstore] at hold, hmsg⟩
      · exact .inr ⟨msg, callbacks, List.mem_append_right _ hmem, hsame⟩
    refine receiveData_elim env ?_ ?_ ?_
    · exact fun _ h => happend rfl (dispatch_retained _ h)
    · exact fun _ h => .inl ⟨topic, e, h, rfl⟩
    · exact fun _ h => happend rfl (dispatch_retained (bus.afterCheck env r) h)

/-- A call without a message keeps or drops what is retained. -/
theorem entry_of_exec {call : Call} {topic : Bytes} {e : RetainedEntry}
    (hreceived : ∀ source data, call ≠ .received source data) (hown : ¬ StoresOwn topic call)
    (h : (bus.exec env call).1.retainedEntry topic = some e) :
    bus.retainedEntry topic = some e := by
  obtain hgone | hsame := exec_entry env bus topic hreceived hown
  · rw [hgone] at h
    cases h
  · exact hsame ▸ h

theorem exec_retained {call : Call} {topic : Bytes} {e : RetainedEntry}
    (h : (bus.exec env call).1.retainedEntry topic = some e) :
    RetainedFrom bus (bus.exec env call).2 e := by
  cases call with
  | publish topic' payload qos flags => exact publish_retained h
  | deliverWill topic' payload retainWill sourceId => exact deliverWill_retained h
  | received source data => exact onReceived_retained h
  | _ => exact .inl ⟨topic, e, entry_of_exec (by rintro _ _ ⟨⟩) (by rintro ⟨⟩) h, rfl⟩

end EmbedMq.MessageBus
