import EmbedMq.Participant.Records

/-!
# Nothing out of thin air

Whatever the subscribers of a participant are given, now or from the retained messages, some
participant has published it under its own id, or it is the will of a node that had announced it
and was not heard of any more. Frames are lost, duplicated, delayed, reordered and cut off on the
way, and every endpoint may be shared.
-/

namespace EmbedMq

open MessageCodec (decode encode Encodable)
open MessageBus (Call)

/-- The message that an effect hands to the subscribers of the node. -/
def Effect.delivered : Effect → Option ReceivedMessage
  | .route msg _ => some msg
  | .replay _ msg => some msg
  | _ => none

theorem Effect.isDelivery {effect : Effect} {msg : ReceivedMessage}
    (h : effect.delivered = some msg) : MessageBus.IsDelivery effect := by
  cases effect with
  | route msg callbacks => exact .route msg callbacks
  | replay callback msg => exact .replay callback msg
  | _ => cases h

namespace MessageBus

variable {env : Env} {bus : MessageBus} {A : ReceivedMessage → Prop}

/-- Every retained message has a property. -/
def AllRetained (bus : MessageBus) (A : ReceivedMessage → Prop) : Prop :=
  ∀ topic e, bus.retainedEntry topic = some e → A e.msg

/-- What a call hands to subscribers is retained or routed by the call. -/
theorem exec_delivered {call : Call} (hretains : bus.AllRetained A)
    (hroutes : ∀ msg, RoutedBy bus msg call → A msg) {effect : Effect}
    (hmem : effect ∈ (bus.exec env call).2) {msg : ReceivedMessage}
    (hmsg : effect.delivered = some msg) : A msg := by
  obtain ⟨routed, callbacks, rfl, hrouted⟩ | ⟨callback, replayed, topic, e, rfl, hentry, rfl⟩ :=
    exec_delivery hmem (Effect.isDelivery hmsg)
  · obtain rfl := Option.some.inj hmsg
    exact hroutes _ hrouted
  · obtain rfl := Option.some.inj hmsg
    exact hretains topic e hentry

/-- What a call retains has been retained or is routed by the call. -/
theorem exec_allRetained (env : Env) {call : Call} (hretains : bus.AllRetained A)
    (hsame : ∀ {msg msg'}, SameMessage msg msg' → A msg' → A msg)
    (hroutes : ∀ msg, RoutedBy bus msg call → A msg) : (bus.exec env call).1.AllRetained A := by
  intro topic e hentry
  obtain ⟨topic', old, hold, hmsg⟩ | ⟨msg, callbacks, hmem, hmsg⟩ := exec_retained hentry
  · exact hmsg ▸ hretains topic' old hold
  · exact hsame hmsg (exec_delivered hretains hroutes hmem rfl)

end MessageBus

/-- The messages that the calls among some effects hand to subscribers, and the messages that are
retained afterwards. -/
theorem Participant.Runs.delivered {env : Env} {bus after : MessageBus}
    {effects : List NodeEffect} {A : ReceivedMessage → Prop}
    (h : Participant.Runs env bus effects after)
    (hsame : ∀ {msg msg'}, MessageBus.SameMessage msg msg' → A msg' → A msg)
    (hretains : bus.AllRetained A)
    (hroutes : ∀ call more, .called call more ∈ effects → ∀ (bus' : MessageBus) msg,
      MessageBus.Kept bus bus' → MessageBus.RoutedBy bus' msg call → A msg) :
    after.AllRetained A ∧ ∀ call more, .called call more ∈ effects →
      ∀ effect ∈ more, ∀ msg, effect.delivered = some msg → A msg := by
  induction h with
  | nil bus => exact ⟨hretains, fun _ _ hmem => absurd hmem List.not_mem_nil⟩
  | @called bus after call rest _ ih =>
      have hkept := MessageBus.exec_kept env bus call
      have hcall := hroutes call _ (.head _) bus
      have hself : MessageBus.Kept bus bus := ⟨rfl, rfl, Nat.le_refl _⟩
      have hnext := MessageBus.exec_allRetained env hretains hsame
        fun msg => hcall msg hself
      obtain ⟨hafter, hrest⟩ := ih hnext fun other more hmem bus' msg hkept' =>
        hroutes other more (.tail _ hmem) bus' msg
          ⟨hkept'.nodeId.trans hkept.nodeId, hkept'.sizeT.trans hkept.sizeT,
            Nat.le_trans hkept.seqCounter hkept'.seqCounter⟩
      refine ⟨hafter, fun other more hmem effect heffect msg hmsg => ?_⟩
      obtain heq | hmem := List.mem_cons.mp hmem
      · obtain ⟨rfl, rfl⟩ := NodeEffect.called.inj heq
        exact MessageBus.exec_delivered hretains (fun msg => hcall msg hself) heffect hmsg
      · exact hrest other more hmem effect heffect msg hmsg
  | broadcast _ ih =>
      obtain ⟨hafter, hrest⟩ := ih hretains fun call more hmem => hroutes call more (.tail _ hmem)
      refine ⟨hafter, fun call more hmem => hrest call more ?_⟩
      exact (List.mem_cons.mp hmem).resolve_left (by rintro ⟨⟩)
  | peerEvent _ ih =>
      obtain ⟨hafter, hrest⟩ := ih hretains fun call more hmem => hroutes call more (.tail _ hmem)
      refine ⟨hafter, fun call more hmem => hrest call more ?_⟩
      exact (List.mem_cons.mp hmem).resolve_left (by rintro ⟨⟩)

namespace DiscoveryAgent

/-- A message is the will of a node, with its topic cut off. -/
structure Bequeaths (agent : DiscoveryAgent) (msg : ReceivedMessage) : Prop where
  hasWill : agent.hasWill = true
  sourceId : msg.sourceId = agent.nodeId
  topic : msg.topic = agent.lastWill.topic.take 0xFFFF
  payload : msg.payload = agent.lastWill.payload

theorem heardFrom_hasWill (agent : DiscoveryAgent) (topics : List Bytes) (eps : List Endpoint)
    (source : Endpoint) : (agent.heardFrom topics eps source).hasWill = agent.hasWill :=
  record_hasWill topics eps

theorem heardFrom_will {agent : DiscoveryAgent} (h : agent.hasWill = true) (topics : List Bytes)
    (eps : List Endpoint) (source : Endpoint) :
    (agent.heardFrom topics eps source).willTopic = agent.lastWill.topic.take 0xFFFF ∧
      (agent.heardFrom topics eps source).willPayload = agent.lastWill.payload := by
  simp [heardFrom, record, h, withWill]

end DiscoveryAgent

namespace Network

open MessageBus (SameMessage RoutedBy Kept)

variable {ι : Type} [DecidableEq ι] {F : Fleet ι} {s : Network ι}

/-- A participant has published the message under its own id. -/
def PublishedBy (F : Fleet ι) (log : List (NetworkEntry ι)) (msg : ReceivedMessage) : Prop :=
  ∃ step ∈ log, ∃ qos flags, step.call = .publish msg.topic msg.payload qos flags ∧
    msg.sourceId = (F.agent step.node).nodeId

/-- The message is the will of a peer that the node has known by its announcement, and at a run of
its timer had not heard of for longer than the timeout. -/
def WillOf (F : Fleet ι) (log : List (NetworkEntry ι)) (n : ι) (msg : ReceivedMessage) : Prop :=
  ∃ before step rec m, (fitting F).Reachable before ∧ step :: before.log <:+ log ∧
    step.node = n ∧ step.call = .timeoutTimer ∧
    (before.nodes n).registry.records.lookup msg.sourceId = some rec ∧
    PeerRegistry.Silent step.env.now (F.config n).peerTimeoutMs rec.lastSeen ∧
    KnownFrom F before.log n m rec.info ∧ (F.agent m).Bequeaths msg

/-- The message comes from a participant. -/
def Authentic (F : Fleet ι) (log : List (NetworkEntry ι)) (n : ι) (msg : ReceivedMessage) : Prop :=
  PublishedBy F log msg ∨ WillOf F log n msg

theorem Authentic.mono {log more : List (NetworkEntry ι)} {n : ι} {msg : ReceivedMessage}
    (h : Authentic F log n msg) (hlog : log <:+ more) : Authentic F more n msg := by
  obtain ⟨step, hmem, hrest⟩ | ⟨before, step, rec, m, hreach, hsuffix, hrest⟩ := h
  · exact .inl ⟨step, hlog.subset hmem, hrest⟩
  · exact .inr ⟨before, step, rec, m, hreach, hsuffix.trans hlog, hrest⟩

theorem Authentic.congr {log : List (NetworkEntry ι)} {n : ι} {msg msg' : ReceivedMessage}
    (hsame : SameMessage msg msg') (h : Authentic F log n msg') : Authentic F log n msg := by
  obtain ⟨htopic, hpayload, hsource⟩ := hsame
  obtain ⟨step, hmem, qos, flags, hcall, hid⟩ | ⟨before, step, rec, m, hreach, hsuffix, hnode,
    htimer, hrec, hsilent, hknown, hwill⟩ := h
  · refine .inl ⟨step, hmem, qos, flags, ?_, hsource.trans hid⟩
    rw [hcall, htopic, hpayload]
  · refine .inr ⟨before, step, rec, m, hreach, hsuffix, hnode, htimer, ?_, hsilent, hknown,
      hwill.hasWill, hsource.trans hwill.sourceId, htopic.trans hwill.topic,
      hpayload.trans hwill.payload⟩
    rw [hsource]
    exact hrec

/-- A frame that arrives and is decoded to a message was sent by the participant that has
published the message. -/
theorem received_published (h : (fitting F).Reachable s) {n : ι} {source : Endpoint}
    {data : Bytes} (harrives : s.Arrives F n source data) {sz : SizeT}
    (hvalid : (decode sz data).valid = true)
    (hbus : DiscoveryAgent.isDiscovery (MessageType.ofByte (data.getD 3 0)) = false)
    (htype : MessageType.ofByte (decode sz data).header.msgType = .publish) :
    PublishedBy F s.log (MessageBus.publishedMessage (decode sz data)) := by
  have hworld := refines_world.reachable h
  obtain ⟨sender, dest, hsent, -⟩ := arrives_world h hworld harrives hvalid hbus
  obtain ⟨e, hmem, rfl, a, stamp, -, rfl, hcall, hsource⟩ :=
    World.sent_publish hworld hsent hvalid htype
  obtain ⟨post, step, pre, -, hlog, hnode, hpublish, -⟩ := publish_origin h hmem hcall
  have henc := MessageCodec.encodable_of_valid hvalid
  rw [MessageCodec.decode_encode henc]
  refine ⟨step, by rw [hlog]; exact List.mem_append_right _ (.head _), a.qos, a.flags, hpublish, ?_⟩
  rw [hnode]
  exact hsource

/-- A will that is published belongs to a peer that the timer has found silent. -/
theorem will_origin (h : (fitting F).Reachable s) {l : Label ι}
    (henabled : (fitting F).enabled s l) {topic payload : Bytes} {retainWill : Bool}
    {source : UInt16} {effects : List Effect}
    (hcalled : .called (.deliverWill topic payload retainWill source) effects ∈
      (Participant.exec l.env l.call (s.nodes l.node)).2) {msg : ReceivedMessage}
    (htopic : msg.topic = topic) (hpayload : msg.payload = payload)
    (hsource : msg.sourceId = source) : WillOf F (s.step l).log l.node msg := by
  obtain ⟨registryCall, hasks, hexec⟩ | hquiet :=
    Participant.exec_cases l.env l.call (s.nodes l.node)
  · rw [hexec] at hcalled
    have hkeyed := (inv_of_reachable h.of_restrict l.node).keyed
    obtain ⟨hagent, hconfig⟩ := reachable_node h.of_restrict l.node
    obtain ⟨cb, hcb, hcall⟩ := Participant.onPeers_called hcalled
    cases cb with
    | will peer =>
        obtain ⟨rfl, rfl, rfl, rfl⟩ := MessageBus.Call.deliverWill.inj hcall
        cases PeerRegistry.calledBack_of_mem hkeyed hcb with
        | @will rec hrec hwill hremoved =>
            obtain ⟨m, hid, hknown⟩ := record_known h hrec
            obtain ⟨-, -, topics, eps, from', -, -, hpeer⟩ := id hknown
            have hhas : (F.agent m).hasWill = true := by
              rw [← hwill, hpeer, DiscoveryAgent.heardFrom_hasWill]
            obtain ⟨hwillTopic, hwillPayload⟩ :=
              DiscoveryAgent.heardFrom_will hhas topics eps from'
            rw [← hpeer] at hwillTopic hwillPayload
            have hbequeaths : (F.agent m).Bequeaths msg :=
              ⟨hhas, hsource.trans hid.symm, htopic.trans hwillTopic, hpayload.trans hwillPayload⟩
            generalize hstep : l.call = call at hasks
            cases hasks with
            | timeout =>
                obtain hremove | ⟨timeoutMs, htimeout, hsilent⟩ := hremoved
                · cases hremove
                · obtain rfl := PeerRegistry.Call.checkTimeouts.inj htimeout
                  rw [hconfig] at hsilent
                  refine ⟨s, ⟨l.node, l.env, l.call, _⟩, rec, m, h, List.suffix_refl _, rfl, hstep,
                    ?_, hsilent, hknown, hbequeaths⟩
                  rw [hsource]
                  exact hrec
            | received heard =>
                rw [hagent] at heard
                cases discovery_heard h (henabled.1.2 _ _ hstep) heard with
                | announced => obtain ⟨⟨⟩⟩ | ⟨_, ⟨⟩, -⟩ := hremoved
                | farewell =>
                    obtain hremove | ⟨_, ⟨⟩, -⟩ := hremoved
                    exact absurd (PeerRegistry.Call.remove.inj hremove).2 Bool.false_ne_true
    | discovered peer => cases hcall
    | updated peer => cases hcall
    | lost id name => cases hcall
  · exact absurd rfl ((hquiet.calls _ _ hcalled).2 topic payload retainWill source)

/-- What the calls of a step route is authentic. -/
theorem routed_authentic (h : (fitting F).Reachable s) {l : Label ι}
    (henabled : (fitting F).enabled s l) {call : MessageBus.Call} {effects : List Effect}
    (hcalled : .called call effects ∈ (Participant.exec l.env l.call (s.nodes l.node)).2)
    {bus : MessageBus} (hkept : Kept (s.nodes l.node).bus bus) {msg : ReceivedMessage}
    (hrouted : RoutedBy bus msg call) : Authentic F (s.step l).log l.node msg := by
  have hcause := (Participant.exec_sound l.env l.call (s.nodes l.node)).causes call effects hcalled
  have hlog : s.log <:+ (s.step l).log := List.suffix_cons _ _
  obtain ⟨hnode, hsize⟩ := reachable_bus h.of_restrict l.node
  obtain ⟨qos, flags, rfl, hsource⟩ | ⟨source, data, rfl, hvalid, htype, rfl⟩ |
    ⟨retainWill, rfl⟩ := hrouted
  · refine .inl ⟨_, .head _, qos, flags, hcause, ?_⟩
    rw [hsource, hkept.nodeId, hnode]
    rfl
  · obtain ⟨hstep, hbus⟩ := hcause
    have hpublished := received_published h (henabled.1.2 _ _ hstep) hvalid hbus htype
    exact Authentic.mono (.inl hpublished) hlog
  · exact .inr (will_origin h henabled hcalled rfl rfl rfl)

/-- What a participant retains is authentic. -/
theorem retained_authentic (h : (fitting F).Reachable s) (n : ι) :
    (s.nodes n).bus.AllRetained (Authentic F s.log n) := by
  induction h with
  | init hinit =>
      rw [hinit.1]
      intro topic e hentry
      cases hentry
  | @step s l hreach henabled ih =>
      have hlog : s.log <:+ (s.step l).log := List.suffix_cons _ _
      have hold : (s.nodes n).bus.AllRetained (Authentic F (s.step l).log n) :=
        fun topic e hentry => (ih topic e hentry).mono hlog
      change ((s.step l).nodes n).bus.AllRetained (Authentic F (s.step l).log n)
      obtain ⟨rfl, hnode⟩ | ⟨-, hnode⟩ := step_node_cases (s := s) l n
      · rw [hnode]
        have hruns := (Participant.exec_sound l.env l.call (s.nodes l.node)).runs
        exact (hruns.delivered Authentic.congr hold fun call more hmem bus msg hkept hrouted =>
          routed_authentic hreach henabled hmem hkept hrouted).1
      · rw [hnode]
        exact hold

/-- Every message that a participant hands to its subscribers, or replays to a new one, was
published by a participant under its own id, or is the will of a silent peer. -/
theorem delivered_authentic (h : (fitting F).Reachable s) {post pre : List (NetworkEntry ι)}
    {e : NetworkEntry ι} (hlog : s.log = post ++ e :: pre) {call : MessageBus.Call}
    {effects : List Effect} (hcalled : .called call effects ∈ e.effects) {effect : Effect}
    (heffect : effect ∈ effects) {msg : ReceivedMessage} (hmsg : effect.delivered = some msg) :
    Authentic F (e :: pre) e.node msg := by
  obtain ⟨before, hbefore, rfl, henabled, heffects⟩ := entry_origin h hlog
  have hentry : (before.step ⟨e.node, e.env, e.call⟩).log = e :: before.log := by
    rw [step_log, ← heffects]
  have hruns := (Participant.exec_sound e.env e.call (before.nodes e.node)).runs
  have hretained : (before.nodes e.node).bus.AllRetained (Authentic F (e :: before.log) e.node) :=
    fun topic entry hmem =>
      (retained_authentic hbefore e.node topic entry hmem).mono (List.suffix_cons _ _)
  refine (hruns.delivered Authentic.congr hretained
    fun call more hmem bus msg hkept hrouted => ?_).2 call effects ?_ effect heffect msg hmsg
  · rw [← hentry]
    exact routed_authentic hbefore henabled hmem hkept hrouted
  · rw [← heffects]
    exact hcalled

/-! ### Only subscribers of the domain -/

theorem endpoints_of_reachable (h : (system F).Reachable s) (n : ι) :
    (s.nodes n).endpoints = F.endpoints n ∨ (s.nodes n).endpoints = [] := by
  induction h with
  | init hinit =>
      rw [hinit.1]
      exact .inl rfl
  | @step s l _ _ ih =>
      change ((s.step l).nodes n).endpoints = _ ∨ ((s.step l).nodes n).endpoints = _
      obtain ⟨rfl, hnode⟩ | ⟨-, hnode⟩ := step_node_cases (s := s) l n
      · rw [hnode]
        obtain hsame | hgone := Participant.exec_endpoints l.env l.call (s.nodes l.node)
        · rw [hsame]
          exact ih
        · exact .inr hgone
      · rw [hnode]
        exact ih

end Network

/-- Whatever a peer makes of the endpoints that a node announces leads to that node. -/
def Fleet.Owned {ι : Type} (F : Fleet ι) : Prop :=
  ∀ m source ep, (F.owner source = some m ∨ F.owner source = none) →
    ep ∈ DiscoveryAgent.resolve source
      (((F.endpoints m).take 255).map DiscoveryAgent.cutEndpoint) →
    F.owner ep = some m ∨ F.owner ep = none

namespace Network

variable {ι : Type} [DecidableEq ι] {F : Fleet ι} {s : Network ι}

theorem KnownFrom.owner (howned : F.Owned) {log : List (NetworkEntry ι)} {n m : ι}
    {peer : PeerInfo} (h : KnownFrom F log n m peer) {ep : Endpoint} (hep : ep ∈ peer.endpoints) :
    F.owner ep = some m ∨ F.owner ep = none := by
  obtain ⟨-, -, topics, eps, source, ⟨after, _, _, hreach, -, -, -, -, -, -, heps⟩,
    hsource, rfl⟩ := h
  have hrecord : ((F.agent m).record topics eps).endpoints =
      (eps.take 255).map DiscoveryAgent.cutEndpoint := by
    rw [DiscoveryAgent.record]
    split <;> rfl
  rw [DiscoveryAgent.heardFrom, hrecord] at hep
  obtain hall | hnone := endpoints_of_reachable hreach.of_restrict m
  · rw [← heps, hall] at hep
    exact howned m source ep hsource hep
  · rw [← heps, hnone] at hep
    obtain rfl := List.mem_singleton.mp hep
    exact hsource

/-- A message that is routed from the network was published by a participant of the same domain
that knew the receiver by an announcement with a matching subscription. -/
theorem received_subscribed (howned : F.Owned) (h : (fitting F).Reachable s)
    {post pre : List (NetworkEntry ι)} {e : NetworkEntry ι} (hlog : s.log = post ++ e :: pre)
    {source : Endpoint} {data : Bytes} {effects : List Effect}
    (hcalled : .called (.received source data) effects ∈ e.effects) {msg : ReceivedMessage}
    {callbacks : List Nat} (hroute : .route msg callbacks ∈ effects) :
    ∃ newer step older qos flags known, pre = newer ++ step :: older ∧
      step.call = .publish msg.topic msg.payload qos flags ∧
      msg.sourceId = (F.agent step.node).nodeId ∧
      KnownFrom F older step.node e.node known ∧ MessageBus.Target msg.topic known := by
  obtain ⟨before, hbefore, rfl, henabled, heffects⟩ := entry_origin h hlog
  have hsound := Participant.exec_sound e.env e.call (before.nodes e.node)
  rw [heffects] at hcalled
  obtain ⟨hstep, hbus⟩ := hsound.causes _ _ hcalled
  obtain ⟨bus, hkept, rfl⟩ := hsound.runs.called_origin hcalled
  obtain ⟨hvalid, htype, _, heq⟩ := MessageBus.onReceived_delivery (.route msg callbacks) hroute
  obtain ⟨rfl, -⟩ := Effect.route.inj heq
  -- The frame was sent to an endpoint of the receiver.
  have hworld := refines_world.reachable hbefore
  have harrives := henabled.1.2 source data hstep
  obtain ⟨sender, frame, ⟨dest, hsent, howner⟩ | hbroadcast, hpart, -⟩ := harrives
  · obtain ⟨a, stamp, rfl, -⟩ :=
      World.sent_encode hworld (sent_world hbefore.of_restrict hsent)
    obtain ⟨rfl, henc⟩ := part_valid hpart hvalid
    obtain ⟨hsource, newer, step, older, qos, flags, m, known, hpre, rfl, hcall, hknown, htarget,
      hdest⟩ := publish_addressees hbefore hsent hvalid htype
    obtain rfl : m = e.node := by
      obtain hm | hm := hknown.owner howned hdest
      · exact Option.some.inj (hm.symm.trans howner)
      · rw [hm] at howner
        cases howner
    exact ⟨newer, step, older, qos, flags, known, hpre, hcall, hsource, hknown, htarget⟩
  · have hown := broadcast_ownFrame hbefore.of_restrict hbroadcast
    rw [ownFrame_type hown hpart hvalid] at hbus
    cases hbus

end Network

/-! ### Two participants -/

namespace Party

/-- The message of the sender arrives. -/
def delivered : Network Party :=
  told.step (step receiver 0 (.received (endpoint sender) (firstFrame {})))

theorem delivered_reachable : (Network.fitting fleet).Reachable delivered := by
  refine told_reachable.step ⟨⟨rfl, ?_⟩, by rintro _ _ _ _ ⟨⟩⟩
  rintro source data ⟨⟩
  exact ⟨sender, firstFrame {}, .inl ⟨endpoint receiver, told_sent, rfl⟩, .inl rfl, .inl rfl⟩

def delivery : ReceivedMessage where
  topic := [0x74]
  payload := [42]
  sourceId := nodeId sender
  sequenceId := 2

theorem delivered_called : ∃ e effects, delivered.log = e :: told.log ∧ e.node = receiver ∧
    .called (.received (endpoint sender) (firstFrame {})) effects ∈ e.effects ∧
    .route delivery [7] ∈ effects := by
  refine ⟨_, ((told.nodes receiver).bus.exec (call receiver 0 .start).env
    (.received (endpoint sender) (firstFrame {}))).2, rfl, rfl, ?_, ?_⟩
  · change _ ∈ (Participant.recvCallback _ _ _ _).2
    rw [Participant.recvCallback, if_pos (by decide +kernel), if_neg (by decide +kernel)]
    exact .head _
  · decide +kernel

theorem fleet_owned : fleet.Owned := by
  intro m source ep hsource hep
  obtain rfl : ep = source := by
    have hresolve : DiscoveryAgent.resolve source
        (((fleet.endpoints m).take 255).map DiscoveryAgent.cutEndpoint) = [source] := rfl
    rw [hresolve] at hep
    exact List.mem_singleton.mp hep
  exact hsource

end Party

open Party

theorem Network.delivered_authentic_delivery :
    Network.Authentic fleet delivered.log receiver delivery := by
  obtain ⟨e, effects, hlog, hnode, hcalled, hroute⟩ := delivered_called
  have hauthentic := Network.delivered_authentic delivered_reachable
    (show delivered.log = [] ++ e :: told.log from hlog) hcalled hroute rfl
  rw [hnode] at hauthentic
  exact hlog ▸ hauthentic

theorem Network.received_subscribed_delivery : ∃ newer step older known,
    told.log = newer ++ step :: older ∧ step.node = sender ∧
      KnownFrom fleet older sender receiver known ∧ MessageBus.Target [0x74] known := by
  obtain ⟨e, effects, hlog, hnode, hcalled, hroute⟩ := delivered_called
  obtain ⟨newer, step, older, qos, flags, known, hpre, -, hid, hknown, htarget⟩ :=
    Network.received_subscribed fleet_owned delivered_reachable
      (show delivered.log = [] ++ e :: told.log from hlog) hcalled hroute
  have hsender : step.node = sender := nodeId_injective hid.symm
  rw [hnode, hsender] at hknown
  exact ⟨newer, step, older, known, hpre, hsender, hknown, htarget⟩

end EmbedMq
