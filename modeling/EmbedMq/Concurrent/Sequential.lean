import EmbedMq.Bus.Frame
import EmbedMq.Concurrent.Actions

/-!
# Calls without interruption

Run one after the other, with nothing in between, the actions of an entry point do what
the entry point does in the sequential model: they leave the same bus and have the same
effects in the same order. So what is proved of `MessageBus.exec` is true of the
interleavings in which the calls do not overlap.
-/

namespace EmbedMq

open MessageBus (Call RetryJob)
open MessageCodec (DecodeResult)

namespace Action

/-- The actions do what an entry point of the sequential bus does. -/
def Performs (env : Env) (actions : List Action) (bus : MessageBus)
    (result : MessageBus × List Effect) : Prop :=
  Threads.Alone run env actions bus result.1 result.2

variable {env : Env} {bus : MessageBus}

theorem performs_nil : Performs env [] bus (bus, []) := Threads.Alone.nil bus

theorem performs_last {a : Action} (h : (run env a bus).next = []) :
    Performs env [a] bus ((run env a bus).state, (run env a bus).effects) :=
  Threads.Alone.last h

theorem Performs.append {actions more : List Action} {after final : MessageBus}
    {effects others : List Effect} (h : Performs env actions bus (after, effects))
    (hmore : Performs env more after (final, others)) :
    Performs env (actions ++ more) bus (final, effects ++ others) :=
  Threads.Alone.append h hmore

theorem performs_single {a : Action} {after final : MessageBus} {effects others : List Effect}
    {next : List Action} (hrun : run env a bus = ⟨after, effects, next⟩)
    (h : Performs env next after (final, others)) :
    Performs env [a] bus (final, effects ++ others) := by
  have hnext : Threads.Alone run env (run env a bus).next (run env a bus).state final others := by
    rw [hrun]
    exact h
  have hsingle := Threads.Alone.single hnext
  rw [hrun] at hsingle
  exact hsingle

theorem performs_publishTo (topic payload : Bytes) (qos : QoSProfile) (flags : UInt8)
    (eps : List Endpoint) (bus : MessageBus) :
    Performs env (eps.map (.sendTo topic payload qos flags)) bus
      (MessageBus.publishTo env topic payload qos flags eps bus) := by
  induction eps generalizing bus with
  | nil => exact performs_nil
  | cons ep rest ih =>
      have hone : Performs env [.sendTo topic payload qos flags ep] bus
          (bus.publishOne env topic payload qos flags ep) := by
        by_cases hlevel : QoSLevel.reliable ≤ qos.level
        · have hrun : run env (.sendTo topic payload qos flags ep) bus = _ := if_pos hlevel
          have hboth := performs_single hrun (performs_last rfl)
          simp only [MessageBus.publishOne, if_pos hlevel]
          exact hboth
        · have hrun : run env (.sendTo topic payload qos flags ep) bus = _ := if_neg hlevel
          have honly := performs_single hrun performs_nil
          simp only [MessageBus.publishOne, if_neg hlevel]
          exact honly
      exact hone.append (ih _)

theorem performs_sendReply (dest : Endpoint) (corrId : UInt32) (payload : Bytes)
    (qos : QoSProfile) (bus : MessageBus) :
    Performs env [.sendReply dest corrId payload qos] bus
      (bus.sendReply env dest corrId payload qos true) := by
  by_cases hlevel : QoSLevel.reliable ≤ qos.level
  · have hrun : run env (.sendReply dest corrId payload qos) bus = _ :=
      congrArg (Outcome.mk _ _) (if_pos hlevel)
    have hboth := performs_single hrun (performs_last rfl)
    simp only [MessageBus.sendReply, hlevel, and_self, if_true]
    exact hboth
  · have hrun : run env (.sendReply dest corrId payload qos) bus = _ :=
      congrArg (Outcome.mk _ _) (if_neg hlevel)
    have honly := performs_single hrun performs_nil
    simp only [MessageBus.sendReply, hlevel, and_false, if_false]
    exact honly

theorem performs_settle (outcome : Settlement) (corrIds : List UInt32) (bus : MessageBus) :
    Performs env (corrIds.map fun corrId => .settle corrId outcome) bus
      (bus, corrIds.map fun corrId => .settle corrId outcome) := by
  induction corrIds with
  | nil => exact performs_nil
  | cons corrId rest ih =>
      exact (performs_last (a := .settle corrId outcome) rfl).append ih

theorem performs_dispatchAll (env : Env) (jobs : List RetryJob) (bus : MessageBus) :
    Performs env (jobs.map .retryRequest) bus (MessageBus.dispatchAll env jobs bus) := by
  induction jobs generalizing bus with
  | nil => exact performs_nil
  | cons job rest ih =>
      exact (performs_last (a := .retryRequest job) rfl).append (ih _)

theorem performs_deliver (flags : UInt8) (retained msg : ReceivedMessage) (lifespanMs : UInt32)
    (bus : MessageBus) :
    Performs env [.store flags retained lifespanMs, .route msg] bus
      (bus.retain env flags retained lifespanMs,
        [(bus.retain env flags retained lifespanMs).route msg]) :=
  (performs_last (a := .store flags retained lifespanMs) rfl).append
    (performs_last (a := .route msg) rfl)

theorem performs_publish (topic payload : Bytes) (qos : QoSProfile) (flags : UInt8)
    (bus : MessageBus) :
    Performs env [.publish topic payload qos flags] bus
      (bus.publish env topic payload qos flags) := by
  have hselect (bus : MessageBus) : Performs env [.selectTargets topic payload qos flags] bus
      (MessageBus.publishTo env topic payload qos flags (bus.targets env fun sub =>
        TopicRouter.matchWildcard sub topic || decide (sub = topic)) bus) :=
    performs_single rfl (performs_publishTo topic payload qos flags _ bus)
  exact performs_single rfl ((performs_deliver flags _ _ qos.lifespanMs _).append (hselect _))

theorem performs_request (source : Endpoint) (r : DecodeResult) (bus : MessageBus) :
    Performs env [.findReply source r] bus (bus.serveRequest env source r) := by
  cases hcached : bus.replyCache.lookup
      (MessageBus.replyKey r.header.sourceId r.header.correlationId) with
  | some cached =>
      have hlast : (run env (.findReply source r) bus).next = [] := by
        simp only [run, hcached]
      have hsent := performs_last hlast
      simp only [run, hcached] at hsent
      simp only [MessageBus.serveRequest, hcached]
      exact hsent
  | none =>
      have hreply : run env (.findReply source r) bus = ⟨bus, [], [.findHandler source r]⟩ := by
        simp only [run, hcached]
      simp only [MessageBus.serveRequest, hcached]
      cases hhandler : bus.serviceHandlers.lookup (MessageBus.serviceName r.topic) with
      | none =>
          have hfind : run env (.findHandler source r) bus = ⟨bus, [], []⟩ := by
            simp only [run, hhandler]
          exact performs_single hreply (performs_single hfind performs_nil)
      | some handler =>
          have hfind : run env (.findHandler source r) bus =
              ⟨bus, [], [.runHandler source r handler]⟩ := by
            simp only [run, hhandler]
          exact performs_single hreply (performs_single hfind
            (performs_single (a := .runHandler source r handler) rfl
              (performs_single (a := .cacheReply source r _) rfl
                (performs_sendReply source r.header.correlationId _ _ _))))

theorem performs_take (env : Env) (a : Action) (bus : MessageBus) {corrId : UInt32}
    {outcome : Settlement} (hrun : run env a bus = runTake corrId outcome bus) :
    Performs env [a] bus
      (match bus.pendingRequests.lookup corrId with
        | some _ => ({ bus with pendingRequests := bus.pendingRequests.erase corrId },
            [.settle corrId outcome])
        | none => (bus, [])) := by
  cases hpending : bus.pendingRequests.lookup corrId with
  | some pr =>
      simp only [runTake, hpending] at hrun
      exact performs_single hrun (performs_last rfl)
  | none =>
      simp only [runTake, hpending] at hrun
      exact performs_single hrun performs_nil

theorem performs_reply (source : Endpoint) (r : DecodeResult) (bus : MessageBus) :
    Performs env ((if QoSLevel.reliable ≤ QoSLevel.ofByte r.header.qosLevel then
        [.sendCtrl source .ack r.header.sequenceId] else []) ++
        [.takeReplied r.header.correlationId r.payload]) bus
      (bus.completeRequest env source r) := by
  have hack : Performs env (if QoSLevel.reliable ≤ QoSLevel.ofByte r.header.qosLevel then
      [.sendCtrl source .ack r.header.sequenceId] else []) bus
      (bus, if QoSLevel.reliable ≤ QoSLevel.ofByte r.header.qosLevel then
        [bus.sendAck env source r.header.sequenceId] else []) := by
    split
    · exact performs_last rfl
    · exact performs_nil
  have htake := performs_take env (.takeReplied r.header.correlationId r.payload) bus rfl
  cases hpending : bus.pendingRequests.lookup r.header.correlationId with
  | some pr =>
      simp only [hpending] at htake
      simp only [MessageBus.completeRequest, hpending]
      exact hack.append htake
  | none =>
      simp only [hpending] at htake
      simp only [MessageBus.completeRequest, hpending]
      have hboth := hack.append htake
      rw [List.append_nil] at hboth
      exact hboth

theorem performs_dispatched (source : Endpoint) (r : DecodeResult) (bus : MessageBus) :
    Performs env (dispatched source r) bus (bus.dispatch env source r) := by
  unfold dispatched MessageBus.dispatch
  cases MessageType.ofByte r.header.msgType with
  | publish => exact performs_deliver r.header.flags _ _ 0 bus
  | request => exact performs_request source r bus
  | reply => exact performs_reply source r bus
  | _ => exact performs_nil

theorem performs_answered (env : Env) (source : Endpoint) (r : DecodeResult) (bus : MessageBus) :
    Performs env (answered source r) bus (bus, bus.publishAnswer env source r) := by
  unfold answered MessageBus.publishAnswer
  cases MessageType.ofByte r.header.msgType with
  | publish =>
      cases QoSLevel.ofByte r.header.qosLevel with
      | exactlyOnce => exact performs_last rfl
      | reliable => exact performs_last rfl
      | _ => exact performs_nil
  | _ => exact performs_nil

theorem performs_data (env : Env) (source : Endpoint) (r : DecodeResult) (bus : MessageBus) :
    Performs env (answered source r ++
        if QoSLevel.ofByte r.header.qosLevel = .exactlyOnce then [.isDuplicate source r]
        else dispatched source r) bus
      (bus.receiveData env source r) := by
  have hanswered := performs_answered env source r bus
  by_cases hlevel : QoSLevel.ofByte r.header.qosLevel = .exactlyOnce
  · simp only [MessageBus.receiveData, if_pos hlevel]
    cases hdup : (bus.qosEngine.isDuplicate r.header.sourceId r.header.sequenceId env.now).1 with
    | true =>
        have hrun : run env (.isDuplicate source r) bus = ⟨{ bus with qosEngine :=
            (bus.qosEngine.isDuplicate r.header.sourceId r.header.sequenceId env.now).2 },
            [], []⟩ := by
          simp only [run, hdup, if_true]
        have hboth := hanswered.append (performs_single hrun performs_nil)
        simp only [if_true]
        rw [List.append_nil, List.append_nil] at hboth
        exact hboth
    | false =>
        have hrun : run env (.isDuplicate source r) bus = ⟨{ bus with qosEngine :=
            (bus.qosEngine.isDuplicate r.header.sourceId r.header.sequenceId env.now).2 },
            [], dispatched source r⟩ := by
          simp only [run, hdup, Bool.false_eq_true, if_false]
        exact hanswered.append (performs_single hrun (performs_dispatched source r _))
  · simp only [MessageBus.receiveData, if_neg hlevel]
    exact hanswered.append (performs_dispatched source r bus)

theorem performs_received (source : Endpoint) (data : Bytes) (bus : MessageBus) :
    Performs env [.receive source data] bus (bus.onReceived env source data) := by
  have hreceived : Performs env (received source (MessageCodec.decode bus.sizeT data)) bus
      (bus.onReceived env source data) := by
    unfold received MessageBus.onReceived
    generalize MessageCodec.decode bus.sizeT data = r
    have hdata := performs_data env source r bus
    by_cases hvalid : r.valid = true
    · simp only [if_pos hvalid]
      cases MessageType.ofByte r.header.msgType with
      | ack => exact performs_last (a := .onAck r.header.sequenceId) rfl
      | nack => exact performs_last (a := .onNack r.header.sequenceId) rfl
      | pubrec =>
          exact performs_single (a := .onPubrec source r.header.sequenceId) rfl
            (performs_single (a := .sendPubrel source r.header.sequenceId) rfl
              (performs_last rfl))
      | pubrel => exact performs_last (a := .sendCtrl source .pubcomp r.header.sequenceId) rfl
      | pubcomp => exact performs_last (a := .onPubcomp r.header.sequenceId) rfl
      | _ => exact hdata
    · simp only [if_neg hvalid]
      exact performs_nil
  exact performs_single rfl hreceived

/-- The first transmission of a request that is registered. -/
theorem performs_dispatchRequest (env : Env) (service payload : Bytes) (qos : QoSProfile)
    (corrId : UInt32) {bus : MessageBus} {pr : PendingRequest}
    (hpending : bus.pendingRequests.lookup corrId = some pr) :
    Performs env [.dispatchRequest service payload qos corrId] bus
      (let (sent, bus, effects) := bus.dispatchRequest env service payload qos corrId
        let canDiscover :=
          env.active MessageBus.udp || env.active MessageBus.tcp || env.active MessageBus.shm
        if !sent && !canDiscover then
          ({ bus with pendingRequests := bus.pendingRequests.erase corrId },
            effects ++ [.settle corrId (noProvider service)])
        else (bus, effects)) := by
  obtain ⟨n, hbus⟩ := MessageBus.dispatchRequest_shape env bus service payload qos corrId
  have hafter : (bus.dispatchRequest env service payload qos corrId).2.1.pendingRequests.lookup
      corrId = some pr := by
    rw [hbus]
    exact hpending
  have htake := performs_take env (.takeUnprovided service corrId)
    (bus.dispatchRequest env service payload qos corrId).2.1 rfl
  simp only [hafter] at htake
  dsimp only
  split
  · rename_i hnone
    have hcheck : run env (.checkProvider service corrId
        (bus.dispatchRequest env service payload qos corrId).1)
        (bus.dispatchRequest env service payload qos corrId).2.1 =
        ⟨_, [], [.takeUnprovided service corrId]⟩ :=
      congrArg (Outcome.mk _ []) (if_pos hnone)
    exact performs_single (a := .dispatchRequest service payload qos corrId) rfl
      (performs_single hcheck htake)
  · rename_i hsome
    have hcheck : run env (.checkProvider service corrId
        (bus.dispatchRequest env service payload qos corrId).1)
        (bus.dispatchRequest env service payload qos corrId).2.1 = ⟨_, [], []⟩ :=
      congrArg (Outcome.mk _ []) (if_neg hsome)
    have hdone := performs_single (a := .dispatchRequest service payload qos corrId) rfl
      (performs_single hcheck performs_nil)
    rw [List.append_nil, List.append_nil] at hdone
    exact hdone

theorem performs_sendRequest (service payload : Bytes) (qos : QoSProfile) (corrId : UInt32)
    (timeoutOverride : Int) (bus : MessageBus) :
    Performs env [.sendRequest service payload qos corrId timeoutOverride] bus
      (bus.sendRequest env service payload qos corrId timeoutOverride) := by
  cases hhandler : bus.serviceHandlers.lookup service with
  | some handler =>
      have hrun : run env (.sendRequest service payload qos corrId timeoutOverride) bus =
          ⟨bus, [], [.runLocal service payload corrId handler]⟩ := by
        simp only [run, hhandler]
      simp only [MessageBus.sendRequest, hhandler]
      exact performs_single hrun (performs_single rfl (performs_last rfl))
  | none =>
      have hrun : run env (.sendRequest service payload qos corrId timeoutOverride) bus =
          ⟨bus, [], [.addRequest service payload qos corrId timeoutOverride]⟩ := by
        simp only [run, hhandler]
      simp only [MessageBus.sendRequest, hhandler]
      let pr := MessageBus.pendingRequest env service payload qos corrId timeoutOverride
      let registered := bus.pendingRequests.insert corrId pr
      let after : MessageBus := { bus with pendingRequests := registered }
      have hregistered : after.pendingRequests.lookup corrId = some pr := AList.lookup_insert _
      have hdispatch := performs_dispatchRequest env service payload qos corrId hregistered
      exact performs_single hrun (performs_single rfl hdispatch)

theorem performs_tick (bus : MessageBus) : Performs env [.tick] bus (bus.tick env) := by
  have hsweep (bus : MessageBus) : Performs env [.sweepRequests] bus
      ((MessageBus.dispatchAll env (bus.retryJobs env) (bus.sweepRequests env)).1,
        (MessageBus.dispatchAll env (bus.retryJobs env) (bus.sweepRequests env)).2 ++
          (bus.expiredRequests env).map fun corrId => .settle corrId requestTimedOut) := by
    have hrest := (performs_dispatchAll env (bus.retryJobs env) (bus.sweepRequests env)).append
      (performs_settle requestTimedOut (bus.expiredRequests env) _)
    have hrun : run env .sweepRequests bus = ⟨bus.sweepRequests env, [], _⟩ := rfl
    have hsingle := performs_single hrun hrest
    exact hsingle
  have hrun : run env .tick bus = ⟨bus, [], [.processTimeouts, .cleanupDedupWindow,
    .expireRetained, .expireReplyCache, .sweepRequests]⟩ := rfl
  have htick := performs_single hrun
    ((performs_last (a := .processTimeouts) rfl).append
      ((performs_last (a := .cleanupDedupWindow) rfl).append
        ((performs_last (a := .expireRetained) rfl).append
          ((performs_last (a := .expireReplyCache) rfl).append (hsweep _)))))
  simp only [run, List.append_assoc, List.nil_append] at htick
  simp only [MessageBus.tick, MessageBus.tickEngine, List.append_assoc]
  exact htick

theorem performs_stop (bus : MessageBus) : Performs env [.stop] bus bus.stop := by
  by_cases hrunning : bus.running = true
  · have hrun : run env .stop bus = ⟨{ bus with running := false }, [], [.clearRequests]⟩ :=
      if_pos hrunning
    simp only [MessageBus.stop, if_pos hrunning]
    exact performs_single hrun (performs_last rfl)
  · have hrun : run env .stop bus = ⟨bus, [], []⟩ := if_neg hrunning
    simp only [MessageBus.stop, if_neg hrunning]
    exact performs_single hrun performs_nil

theorem performs_createSubscriber (pattern : Bytes) (callback : Nat) (qos : QoSProfile)
    (bus : MessageBus) :
    Performs env [.addSubscription pattern callback qos] bus
      (bus.createSubscriber pattern callback qos) := by
  by_cases hdurable : qos.durability = .transientLocal
  · have hrun : run env (.addSubscription pattern callback qos) bus = _ :=
      congrArg (Outcome.mk _ []) (if_pos hdurable)
    simp only [MessageBus.createSubscriber, if_pos hdurable]
    exact performs_single hrun (performs_last rfl)
  · have hrun : run env (.addSubscription pattern callback qos) bus = _ :=
      congrArg (Outcome.mk _ []) (if_neg hdurable)
    simp only [MessageBus.createSubscriber, if_neg hdurable]
    exact performs_single hrun performs_nil

/-- Run without interruption, the actions of an entry point do what `exec` does. -/
theorem performs_exec (env : Env) (call : Call) (bus : MessageBus) :
    Performs env [ofCall call] bus (bus.exec env call) := by
  cases call with
  | publish topic payload qos flags => exact performs_publish topic payload qos flags bus
  | received source data => exact performs_received source data bus
  | sendRequest service payload qos corrId timeout =>
      exact performs_sendRequest service payload qos corrId timeout bus
  | tick => exact performs_tick bus
  | deliverWill topic payload retainWill sourceId =>
      exact performs_single rfl (performs_deliver _ _ _ 0 _)
  | createSubscriber pattern callback qos =>
      exact performs_createSubscriber pattern callback qos bus
  | stop => exact performs_stop bus
  | _ => exact performs_last rfl

end Action

/-- A call that has just begun may run to its end without interruption, and then does what `exec`
does. -/
theorem BusThreads.call_steps (env : Env) (call : Call) {s : BusThreads} {i : Nat}
    (hcall : s.calls[i]? = some [Action.ofCall call]) :
    ∃ n, system.Admits s (List.replicate n (.step i env)) ∧
      ∃ t, system.exec s (List.replicate n (.step i env)) = t ∧
        t.shared = (s.shared.exec env call).1 ∧ t.calls = s.calls.set i [] ∧
        Threads.effects Action.run t.log =
          Threads.effects Action.run s.log ++ (s.shared.exec env call).2 :=
  Threads.Alone.steps (Action.performs_exec env call s.shared) hcall rfl

end EmbedMq
