import EmbedMq.Bus.Tables
import EmbedMq.Discovery.Mirror
import EmbedMq.Participant.Basic

/-!
# One step of a participant

A step either makes one call of the peer registry, and tells the bus what the registry calls
back, or it leaves the registry and the routing table alone. The routing table mirrors the
registry after every step, the list that is announced is the list of the local topics as long as
the participant runs, and nothing else is ever announced.
-/

namespace EmbedMq

/-- How the bus is told. -/
def PeerCallback.busCall : PeerCallback → MessageBus.Call
  | discovered peer => .peerDiscovered peer
  | updated peer => .peerUpdated peer
  | will peer => .deliverWill peer.willTopic peer.willPayload peer.willRetain peer.id
  | lost peerId _ => .peerLost peerId

theorem PeerCallback.exec_busCall (env : Env) (cb : PeerCallback) (bus : MessageBus) :
    (bus.exec env cb.busCall).1 = cb.run env bus := by
  cases cb <;> rfl

theorem PeerCallback.foldl_localTopics (env : Env) (callbacks : List PeerCallback)
    (bus : MessageBus) :
    (callbacks.foldl (fun bus cb => cb.run env bus) bus).localTopics = bus.localTopics := by
  induction callbacks generalizing bus with
  | nil => rfl
  | cons cb rest ih =>
      rw [List.foldl_cons, ih, ← cb.exec_busCall]
      exact MessageBus.exec_localTopics env bus (by cases cb <;> rfl)

namespace PeerRegistry

variable {now : Int} {call : Call} {reg : PeerRegistry} {id : UInt16}

/-- A record after a call is announced by the call, or was there before, up to the time. -/
theorem perform_info (hkeyed : reg.Keyed) {rec : PeerRecord}
    (h : (perform now call reg).1.records.lookup id = some rec) :
    call = .addOrUpdate rec.info ∨
      ∃ old, reg.records.lookup id = some old ∧ old.info = rec.info := by
  rw [(perform_onPeer hkeyed now call id).1] at h
  cases call with
  | addOrUpdate peer =>
      simp only [onPeer] at h
      split at h
      · obtain rfl := Option.some.inj h
        exact .inl rfl
      · exact .inr ⟨rec, h, rfl⟩
  | remove peerId triggerWill =>
      simp only [onPeer] at h
      split at h
      · cases h
      · exact .inr ⟨rec, h, rfl⟩
  | checkTimeouts timeoutMs =>
      simp only [onPeer] at h
      split at h
      · cases h
      · exact .inr ⟨rec, h, rfl⟩
  | heartbeat peerId =>
      simp only [onPeer] at h
      split at h
      · obtain ⟨old, hold, rfl⟩ := Option.map_eq_some_iff.mp h
        exact .inr ⟨old, hold, rfl⟩
      · exact .inr ⟨rec, h, rfl⟩

/-- A callback concerns the record of its peer. -/
theorem mem_perform (hkeyed : reg.Keyed) {cb : PeerCallback} :
    cb ∈ (perform now call reg).2 ↔
      cb ∈ (onPeer cb.peerId now call (reg.records.lookup cb.peerId)).2 := by
  rw [← (perform_onPeer hkeyed now call cb.peerId).2.1, about, List.mem_filter]
  simp

theorem mem_arrival {cb : PeerCallback} {peer : PeerInfo} {old : Option PeerRecord}
    (h : cb ∈ arrival peer old) : cb = .discovered peer ∨ cb = .updated peer := by
  cases old with
  | none => exact .inl (List.mem_singleton.mp h)
  | some old =>
      simp only [arrival] at h
      split at h
      · exact .inr (List.mem_singleton.mp h)
      · cases h

theorem mem_removal {cb : PeerCallback} {triggerWill : Bool} {old : Option PeerRecord}
    (h : cb ∈ removal triggerWill id old) : ∃ rec, old = some rec ∧
      (cb = .lost id rec.info.name ∨
        cb = .will rec.info ∧ triggerWill = true ∧ rec.info.hasWill = true) := by
  cases old with
  | none => cases h
  | some rec =>
      refine ⟨rec, rfl, ?_⟩
      obtain hwill | hlost := List.mem_append.mp h
      · split at hwill
        · rename_i hboth
          exact .inr ⟨List.mem_singleton.mp hwill, Bool.and_eq_true_iff.mp hboth⟩
        · cases hwill
      · exact .inl (List.mem_singleton.mp hlost)

/-- Where a callback comes from: an announcement, or a removal of a peer that was known. -/
inductive CalledBack (reg : PeerRegistry) (now : Int) (call : Call) : PeerCallback → Prop
  | discovered {peer : PeerInfo} (announced : call = .addOrUpdate peer) :
      CalledBack reg now call (.discovered peer)
  | updated {peer : PeerInfo} (announced : call = .addOrUpdate peer) :
      CalledBack reg now call (.updated peer)
  | lost {id : UInt16} {rec : PeerRecord} (known : reg.records.lookup id = some rec) :
      CalledBack reg now call (.lost id rec.info.name)
  | will {rec : PeerRecord} (known : reg.records.lookup rec.info.id = some rec)
      (hasWill : rec.info.hasWill = true)
      (removed : call = .remove rec.info.id true ∨
        ∃ timeoutMs, call = .checkTimeouts timeoutMs ∧ Silent now timeoutMs rec.lastSeen) :
      CalledBack reg now call (.will rec.info)

theorem calledBack_of_mem (hkeyed : reg.Keyed) {cb : PeerCallback}
    (h : cb ∈ (perform now call reg).2) : CalledBack reg now call cb := by
  rw [mem_perform hkeyed] at h
  generalize hid : cb.peerId = id at h
  cases call with
  | addOrUpdate peer =>
      simp only [onPeer] at h
      split at h
      · obtain rfl | rfl := mem_arrival h
        · exact .discovered rfl
        · exact .updated rfl
      · cases h
  | remove peerId triggerWill =>
      simp only [onPeer] at h
      split at h
      · rename_i heq
        obtain ⟨rec, hrec, rfl | ⟨rfl, rfl, hwill⟩⟩ := mem_removal h
        · exact .lost hrec
        · obtain rfl : rec.info.id = id := hid
          exact .will hrec hwill (.inl (by rw [heq]))
      · cases h
  | checkTimeouts timeoutMs =>
      simp only [onPeer] at h
      split at h
      · rename_i hsilent
        obtain ⟨rec, hrec, rfl | ⟨rfl, -, hwill⟩⟩ := mem_removal h
        · exact .lost hrec
        · obtain rfl : rec.info.id = id := hid
          rw [hrec, Option.any_some, decide_eq_true_iff] at hsilent
          exact .will hrec hwill (.inr ⟨timeoutMs, rfl, hsilent⟩)
      · cases h
  | heartbeat peerId =>
      simp only [onPeer] at h
      split at h <;> cases h

/-- The callbacks of some calls bring a routing table in line with the registry. -/
theorem runAll_agrees {calls : List Call} {f : UInt16 → Option PeerInfo}
    (h : ∀ id, Directory.Agrees (reg.records.lookup id) (f id)) (id : UInt16) :
    Directory.Agrees ((runAll now calls reg).1.records.lookup id)
      (Directory.peerUpdates.replay (runAll now calls reg).2 f id) := by
  induction calls generalizing reg f with
  | nil => exact h id
  | cons call rest ih =>
      simp only [runAll, Updates.replay_append]
      exact ih fun id => Directory.enter_agrees h now call id

theorem perform_agrees (now : Int) (call : Call) {f : UInt16 → Option PeerInfo}
    (h : ∀ id, Directory.Agrees (reg.records.lookup id) (f id)) (id : UInt16) :
    Directory.Agrees ((perform now call reg).1.records.lookup id)
      (Directory.peerUpdates.replay (perform now call reg).2 f id) := by
  simp only [perform, Updates.replay_append]
  exact runAll_agrees (fun id => Directory.enter_agrees h now call id) id

end PeerRegistry

/-- The routing table after some callbacks. -/
theorem Directory.routes_foldl (env : Env) (callbacks : List PeerCallback) (bus : MessageBus) :
    routes (callbacks.foldl (fun bus cb => cb.run env bus) bus) =
      peerUpdates.replay callbacks (routes bus) := by
  induction callbacks generalizing bus with
  | nil => rfl
  | cons cb rest ih => rw [List.foldl_cons, ih, routes_run, Updates.replay_cons]

namespace Participant

variable {env : Env} {p : Participant}

/-! ### Steps that do not concern peers -/

/-- A call of the bus that is not made by the registry. -/
def IsOwnCall (call : MessageBus.Call) : Prop :=
  call.isPeerCall = false ∧ ∀ topic payload retainWill source,
    call ≠ .deliverWill topic payload retainWill source

/-- The registry is left alone, and so is what the bus knows of the peers. -/
structure Quiet (p : Participant) (result : Participant × List NodeEffect) : Prop where
  registry : result.1.registry = p.registry
  calls : ∀ call effects, .called call effects ∈ result.2 → IsOwnCall call
  events : ∀ id name online, .peerEvent id name online ∉ result.2

namespace Quiet

theorem andThen {first second : Action} (h : Quiet p (first p))
    (h' : Quiet (first p).1 (second (first p).1)) : Quiet p (first.andThen second p) where
  registry := h'.registry.trans h.registry
  calls _ _ hmem := (List.mem_append.mp hmem).elim (h.calls _ _) (h'.calls _ _)
  events _ _ _ hmem := (List.mem_append.mp hmem).elim (h.events _ _ _) (h'.events _ _ _)

theorem modify (f : Participant → Participant) (p : Participant)
    (hregistry : (f p).registry = p.registry := by rfl) : Quiet p (modify f p) where
  registry := hregistry
  calls _ _ hmem := by cases hmem
  events _ _ _ hmem := by cases hmem

theorem nothing (p : Participant) : Quiet p (p, []) := modify id p

theorem callBus (call : MessageBus.Call) (p : Participant)
    (h : IsOwnCall call := by exact ⟨rfl, by rintro _ _ _ _ ⟨⟩⟩) :
    Quiet p (callBus env call p) where
  registry := rfl
  calls _ _ hmem := by
    cases List.mem_singleton.mp hmem
    exact h
  events _ _ _ hmem := by cases List.mem_singleton.mp hmem

theorem broadcast (frame : Bytes) (p : Participant) : Quiet p (broadcast env frame p) where
  registry := rfl
  calls call effects hmem := by
    rw [Participant.broadcast] at hmem
    split at hmem
    · cases List.mem_singleton.mp hmem
    · cases hmem
  events id name online hmem := by
    rw [Participant.broadcast] at hmem
    split at hmem
    · cases List.mem_singleton.mp hmem
    · cases hmem

theorem sendAnnounce (p : Participant) : Quiet p (sendAnnounce env p) := broadcast _ p

theorem sendFarewell (p : Participant) : Quiet p (sendFarewell env p) := broadcast _ p

theorem announceIfRunning (p : Participant) : Quiet p (announceIfRunning env p) := by
  rw [Participant.announceIfRunning]
  split
  · exact sendAnnounce p
  · exact nothing p

theorem announceTopics (topics : List Bytes) (p : Participant) :
    Quiet p (announceTopics env topics p) :=
  (modify _ p).andThen (announceIfRunning _)

theorem announceLocalTopics (p : Participant) : Quiet p (announceLocalTopics env p) :=
  announceTopics _ p

theorem notifyTopicsChanged (p : Participant) : Quiet p (notifyTopicsChanged env p) := by
  rw [Participant.notifyTopicsChanged]
  split
  · exact announceTopics _ p
  · exact nothing p

theorem startDiscovery (p : Participant) : Quiet p (startDiscovery env p) := by
  rw [Participant.startDiscovery]
  split
  · exact (modify _ p).andThen (sendAnnounce _)
  · exact nothing p

theorem init (p : Participant) : Quiet p (init env p) :=
  (callBus _ p).andThen <| (callBus _ _).andThen <| (modify _ _).andThen <|
    (startDiscovery _).andThen <| (callBus _ _).andThen (modify _ _)

theorem shutdown (p : Participant) : Quiet p (shutdown env p) := by
  rw [Participant.shutdown]
  split
  · exact (modify _ p).andThen <| (sendFarewell _).andThen <| (modify _ _).andThen <|
      (callBus _ _).andThen (modify _ _)
  · exact nothing p

end Quiet

/-- The call of the registry that a step makes. -/
inductive Asks (p : Participant) : Call → PeerRegistry.Call → Prop
  | timeout : Asks p .timeoutTimer (.checkTimeouts p.config.peerTimeoutMs)
  | received {source : Endpoint} {data : Bytes} {registryCall : PeerRegistry.Call}
      (heard : p.agent.onDiscoveryMessage source data = some registryCall) :
      Asks p (.received source data) registryCall

/-- A step makes one call of the registry and nothing else, or it does not concern peers. -/
theorem exec_cases (env : Env) (call : Call) (p : Participant) :
    (∃ registryCall, Asks p call registryCall ∧ exec env call p = callRegistry env registryCall p) ∨
      Quiet p (exec env call p) := by
  cases call with
  | received source data =>
      change (∃ _, _ ∧ recvCallback env source data p = _) ∨
        Quiet p (recvCallback env source data p)
      rw [recvCallback]
      split
      · split
        · rw [onDiscoveryMessage]
          split
          · rename_i registryCall heard
            exact .inl ⟨registryCall, .received heard, rfl⟩
          · exact .inr (.nothing p)
        · exact .inr (.callBus _ p)
      · exact .inr (.nothing p)
  | timeoutTimer => exact .inl ⟨_, .timeout, rfl⟩
  | init => exact .inr (.init p)
  | createSubscriber pattern callback qos =>
      exact .inr ((Quiet.callBus _ p).andThen (.announceLocalTopics _))
  | destroySubscriber subId =>
      exact .inr ((Quiet.callBus _ p).andThen (.notifyTopicsChanged _))
  | createReplier service handler =>
      exact .inr ((Quiet.callBus _ p).andThen (.announceLocalTopics _))
  | destroyReplier service =>
      exact .inr ((Quiet.callBus _ p).andThen (.notifyTopicsChanged _))
  | announceTimer => exact .inr (.sendAnnounce p)
  | shutdown => exact .inr (.shutdown p)
  | _ => exact .inr (.callBus _ p)

/-! ### Calls of the registry -/

theorem onPeer_eq (cb : PeerCallback) (p : Participant) :
    (onPeer env cb p).1 = { p with bus := cb.run env p.bus } := by
  cases cb <;> rfl

theorem onPeers_eq (callbacks : List PeerCallback) (p : Participant) :
    (onPeers env callbacks p).1 =
      { p with bus := callbacks.foldl (fun bus cb => cb.run env bus) p.bus } := by
  induction callbacks generalizing p with
  | nil => rfl
  | cons cb rest ih =>
      change (onPeers env rest (onPeer env cb p).1).1 = _
      rw [ih, onPeer_eq]
      rfl

theorem callRegistry_eq (registryCall : PeerRegistry.Call) (p : Participant) :
    (callRegistry env registryCall p).1 =
      { p with
        registry := (PeerRegistry.perform env.now registryCall p.registry).1
        bus := (PeerRegistry.perform env.now registryCall p.registry).2.foldl
          (fun bus cb => cb.run env bus) p.bus } :=
  onPeers_eq _ _

/-- The calls of the bus are those of the callbacks, in order. -/
theorem onPeers_called {callbacks : List PeerCallback} {call : MessageBus.Call}
    {effects : List Effect} (h : .called call effects ∈ (onPeers env callbacks p).2) :
    ∃ cb ∈ callbacks, call = cb.busCall := by
  induction callbacks generalizing p with
  | nil => cases h
  | cons cb rest ih =>
      obtain h | h := List.mem_append.mp h
      · refine ⟨cb, List.mem_cons_self, ?_⟩
        cases cb with
        | discovered peer =>
            obtain h | h := List.mem_append.mp h
            · cases List.mem_singleton.mp h
              rfl
            · cases List.mem_singleton.mp h
        | lost peerId name =>
            obtain h | h := List.mem_append.mp h
            · cases List.mem_singleton.mp h
              rfl
            · cases List.mem_singleton.mp h
        | updated peer =>
            cases List.mem_singleton.mp h
            rfl
        | will peer =>
            cases List.mem_singleton.mp h
            rfl
      · obtain ⟨cb', hmem, hcall⟩ := ih h
        exact ⟨cb', List.mem_cons_of_mem _ hmem, hcall⟩

/-- A step keeps the endpoints, or gives all of them up. -/
theorem exec_endpoints (env : Env) (call : Call) (p : Participant) :
    (exec env call p).1.endpoints = p.endpoints ∨
      (exec env call p).1.endpoints = [] := by
  have hregistry : ∀ registryCall,
      (callRegistry env registryCall p).1.endpoints = p.endpoints := by
    intro registryCall
    rw [callRegistry_eq]
  cases call with
  | received source data =>
      change (recvCallback env source data p).1.endpoints = _ ∨
        (recvCallback env source data p).1.endpoints = _
      rw [recvCallback]
      split
      · split
        · rw [onDiscoveryMessage]
          split
          · exact .inl (hregistry _)
          · exact .inl rfl
        · exact .inl rfl
      · exact .inl rfl
  | timeoutTimer => exact .inl (hregistry _)
  | shutdown =>
      change (shutdown env p).1.endpoints = _ ∨
        (shutdown env p).1.endpoints = _
      rw [shutdown]
      split
      · exact .inr rfl
      · exact .inl rfl
  | init => simp [exec, init]
  | destroySubscriber subId =>
      simp only [exec, notifyTopicsChanged, Action.andThen_fst]
      split
      · simp
      · simp
  | destroyReplier service =>
      simp only [exec, notifyTopicsChanged, Action.andThen_fst]
      split
      · simp
      · simp
  | createSubscriber pattern callback qos =>
      simp [exec, announceLocalTopics]
  | createReplier service handler => simp [exec, announceLocalTopics]
  | _ => exact .inl rfl

/-! ### What is broadcast -/

section Broadcast

variable {frame : Bytes}

/-- The announcement of what is local now. -/
def Announces (p : Participant) (frame : Bytes) : Prop :=
  p.announcing = true ∧ frame = p.agent.announceFrame p.localTopics p.endpoints

theorem mem_broadcast {other : Bytes} (h : .broadcast frame ∈ (broadcast env other p).2) :
    frame = other := by
  rw [broadcast] at h
  split at h
  · cases List.mem_singleton.mp h
    rfl
  · cases h

theorem mem_announceIfRunning (h : .broadcast frame ∈ (announceIfRunning env p).2) :
    Announces p frame := by
  rw [announceIfRunning] at h
  split at h
  · rename_i hrunning
    exact ⟨hrunning, mem_broadcast h⟩
  · cases h

theorem mem_announceTopics {topics : List Bytes}
    (h : .broadcast frame ∈ (announceTopics env topics p).2) :
    Announces (announceTopics env topics p).1 frame := by
  rw [announceTopics_fst]
  exact mem_announceIfRunning h

/-- A call of the bus broadcasts nothing. -/
theorem mem_callBus_andThen {call : MessageBus.Call} {second : Action}
    (h : .broadcast frame ∈ ((callBus env call).andThen second p).2) :
    .broadcast frame ∈ (second (callBus env call p).1).2 := by
  obtain h | h := List.mem_append.mp h
  · cases List.mem_singleton.mp h
  · exact h

theorem not_mem_onPeers (callbacks : List PeerCallback) :
    .broadcast frame ∉ (onPeers env callbacks p).2 := by
  induction callbacks generalizing p with
  | nil => exact List.not_mem_nil
  | cons cb rest ih =>
      intro h
      obtain h | h := List.mem_append.mp h
      · cases cb with
        | discovered peer => cases List.mem_singleton.mp (mem_callBus_andThen h)
        | updated peer => cases List.mem_singleton.mp h
        | will peer => cases List.mem_singleton.mp h
        | lost id name => cases List.mem_singleton.mp (mem_callBus_andThen h)
      · exact ih h

theorem not_mem_callBus {call : MessageBus.Call} :
    .broadcast frame ∉ (callBus env call p).2 := by
  intro h
  cases List.mem_singleton.mp h

theorem mem_startDiscovery (h : .broadcast frame ∈ (startDiscovery env p).2) :
    Announces (startDiscovery env p).1 frame := by
  rw [startDiscovery_fst]
  rw [startDiscovery] at h
  split at h
  · rename_i hlocal
    refine ⟨by simp [hlocal], ?_⟩
    obtain h | h := List.mem_append.mp h
    · cases h
    · exact mem_broadcast h
  · cases h

theorem mem_init (h : .broadcast frame ∈ (init env p).2) : Announces (init env p).1 frame := by
  simp only [init, Action.andThen_snd, List.mem_append, not_mem_callBus, modify, List.not_mem_nil,
    or_false, false_or] at h
  have hannounces := mem_startDiscovery h
  simp only [init, Announces, Action.andThen_fst, callBus_fst, modify_fst, startDiscovery_fst]
    at hannounces ⊢
  exact hannounces

theorem mem_sendFarewell (h : .broadcast frame ∈ (sendFarewell env p).2) :
    frame = p.agent.farewellFrame :=
  mem_broadcast h

theorem mem_shutdown (h : .broadcast frame ∈ (shutdown env p).2) :
    p.running = true ∧ frame = p.agent.farewellFrame := by
  rw [shutdown] at h
  split at h
  · rename_i hrunning
    simp only [Action.andThen_snd, List.mem_append, not_mem_callBus, modify, List.not_mem_nil,
      or_false, false_or] at h
    have hframe := mem_sendFarewell h
    exact ⟨hrunning, hframe⟩
  · cases h

theorem mem_notifyTopicsChanged (h : .broadcast frame ∈ (notifyTopicsChanged env p).2) :
    Announces (notifyTopicsChanged env p).1 frame := by
  rw [notifyTopicsChanged] at h ⊢
  split at h
  · rename_i hup
    rw [if_pos hup]
    exact mem_announceTopics h
  · cases h

/-- A change of the local topics is announced. -/
theorem mem_changed {call : MessageBus.Call} {second : Action}
    (hsecond : second = announceLocalTopics env ∨ second = notifyTopicsChanged env)
    (h : .broadcast frame ∈ ((callBus env call).andThen second p).2) :
    Announces ((callBus env call).andThen second p).1 frame := by
  have h := mem_callBus_andThen h
  rw [Action.andThen_fst]
  obtain rfl | rfl := hsecond
  · rw [announceLocalTopics] at h ⊢
    exact mem_announceTopics h
  · exact mem_notifyTopicsChanged h

/-- A step that broadcasts something announces what is local afterwards, or is the shutdown. -/
theorem exec_broadcast {call : Call} (henabled : p.Enabled call)
    (h : .broadcast frame ∈ (exec env call p).2) :
    Announces (exec env call p).1 frame ∨
      call = .shutdown ∧ p.running = true ∧ frame = p.agent.farewellFrame := by
  have hregistry : ∀ registryCall, .broadcast frame ∉ (callRegistry env registryCall p).2 := by
    intro registryCall h
    obtain h | h := List.mem_append.mp h
    · cases h
    · exact not_mem_onPeers _ h
  cases call with
  | init => exact .inl (mem_init h)
  | createSubscriber pattern callback qos => exact .inl (mem_changed (.inl rfl) h)
  | createReplier service handler => exact .inl (mem_changed (.inl rfl) h)
  | destroySubscriber subId => exact .inl (mem_changed (.inr rfl) h)
  | destroyReplier service => exact .inl (mem_changed (.inr rfl) h)
  | announceTimer => exact .inl ⟨henabled, mem_broadcast h⟩
  | timeoutTimer => exact absurd h (hregistry _)
  | received source data =>
      change .broadcast frame ∈ (recvCallback env source data p).2 at h
      rw [recvCallback] at h
      split at h
      · split at h
        · rw [onDiscoveryMessage] at h
          split at h
          · exact absurd h (hregistry _)
          · cases h
        · exact absurd h not_mem_callBus
      · cases h
  | shutdown => exact .inr ⟨rfl, mem_shutdown h⟩
  | _ => exact absurd h not_mem_callBus

end Broadcast

/-! ### The invariant of a participant -/

structure Inv (p : Participant) : Prop where
  keyed : p.registry.Keyed
  mirrors : ∀ id, Directory.Agrees (p.registry.records.lookup id) (p.bus.peers.lookup id)
  topics : p.topicsChangedCb = true ∨ p.created = false → p.localTopics = p.bus.localTopics
  announcing : p.announcing = true → p.topicsChangedCb = true
  running : p.running = p.topicsChangedCb
  created : p.running = true → p.created = true

/-- The bus executes calls that are not made by the registry. -/
theorem Quiet.peers {call : Call} {result : Participant × List NodeEffect}
    (h : Quiet p result) (hsound : Sound env call p result) :
    result.1.bus.peers = p.bus.peers := by
  obtain ⟨after, effects⟩ := result
  have hruns : Runs env p.bus effects after.bus := hsound.runs
  have hcalls : ∀ call more, .called call more ∈ effects → IsOwnCall call := h.calls
  change after.bus.peers = _
  clear h hsound
  generalize p.bus = before at hruns
  generalize after.bus = final at hruns
  induction hruns with
  | nil bus => rfl
  | @called bus final call rest _ ih =>
      rw [ih fun call more hmem => hcalls call more (.tail _ hmem)]
      exact MessageBus.exec_peers env bus (hcalls call _ (.head _)).1
  | broadcast _ ih => exact ih fun call more hmem => hcalls call more (.tail _ hmem)
  | peerEvent _ ih => exact ih fun call more hmem => hcalls call more (.tail _ hmem)

namespace Inv

variable {call : Call}

theorem start {F : DiscoveryAgent} {config : ParticipantConfig} {endpoints : List Endpoint}
    {bus : MessageBus} (hpeers : bus.peers = ∅) (htopics : bus.localTopics = []) :
    Inv { agent := F, config, endpoints, bus } where
  keyed id rec h := by cases h
  mirrors id := by
    change Directory.Agrees none (bus.peers.lookup id)
    rw [hpeers]
    trivial
  topics _ := htopics.symm
  announcing h := by cases h
  running := rfl
  created h := by cases h

/-- A step that makes one call of the registry. -/
theorem callRegistry (h : Inv p) (registryCall : PeerRegistry.Call) :
    Inv (callRegistry env registryCall p).1 := by
  rw [callRegistry_eq]
  have hperform := PeerRegistry.perform_onPeer h.keyed env.now registryCall
  refine
    { keyed := (hperform 0).2.2, mirrors := fun id => ?_, topics := fun hup => ?_
      announcing := h.announcing, running := h.running, created := h.created }
  · have hagrees := PeerRegistry.perform_agrees env.now registryCall h.mirrors id
    change Directory.Agrees _ (Directory.routes _ id)
    rw [Directory.routes_foldl]
    exact hagrees
  · exact (h.topics hup).trans (PeerCallback.foldl_localTopics env _ p.bus).symm

/-- A call of the bus that does not change the local topics. -/
theorem callBus (h : Inv p) (env : Env) (busCall : MessageBus.Call)
    (hpeer : busCall.isPeerCall = false) (htopics : busCall.isTopicsCall = false) :
    Inv (callBus env busCall p).1 where
  keyed := h.keyed
  mirrors id := by
    change Directory.Agrees _ ((p.bus.exec env busCall).1.peers.lookup id)
    rw [MessageBus.exec_peers env p.bus hpeer]
    exact h.mirrors id
  topics hup := (h.topics hup).trans (MessageBus.exec_localTopics env p.bus htopics).symm
  announcing := h.announcing
  running := h.running
  created := h.created

/-- A change of the local topics, with what follows it. -/
theorem changed (h : Inv p) {busCall : MessageBus.Call} (hpeer : busCall.isPeerCall = false)
    {localTopics : List Bytes}
    (hlocal : p.topicsChangedCb = true ∨ p.created = false →
      localTopics = (p.bus.exec env busCall).1.localTopics) :
    Inv { p with bus := (p.bus.exec env busCall).1, localTopics } where
  keyed := h.keyed
  mirrors id := by
    change Directory.Agrees _ ((p.bus.exec env busCall).1.peers.lookup id)
    rw [MessageBus.exec_peers env p.bus hpeer]
    exact h.mirrors id
  topics := hlocal
  announcing := h.announcing
  running := h.running
  created := h.created

theorem announced (h : Inv p) {busCall : MessageBus.Call} (hpeer : busCall.isPeerCall = false) :
    Inv ((Participant.callBus env busCall).andThen (announceLocalTopics env) p).1 := by
  rw [Action.andThen_fst, announceLocalTopics, announceTopics_fst, callBus_fst]
  exact h.changed hpeer fun _ => rfl

theorem notified (h : Inv p) (hcreated : p.created = true) {busCall : MessageBus.Call}
    (hpeer : busCall.isPeerCall = false) :
    Inv ((Participant.callBus env busCall).andThen (notifyTopicsChanged env) p).1 := by
  rw [Action.andThen_fst, callBus_fst, notifyTopicsChanged]
  split
  · rw [announceTopics_fst]
    exact h.changed hpeer fun _ => rfl
  · rename_i hgone
    refine h.changed hpeer fun hup => ?_
    obtain hup | hup := hup
    · exact absurd hup hgone
    · rw [hcreated] at hup
      cases hup

theorem init (h : Inv p) (hfresh : p.created = false) : Inv (init env p).1 := by
  have hbus := ((h.callBus env (.setChecksumEnabled p.config.enableChecksum) rfl rfl).callBus env
    (.setRetainedLimits p.config.retainedTtlMs p.config.retainedMaxCount) rfl rfl).callBus env
      .start rfl rfl
  simp only [Participant.init, Action.andThen_fst, callBus_fst, modify_fst, startDiscovery_fst]
    at hbus ⊢
  exact
    { keyed := hbus.keyed, mirrors := hbus.mirrors, topics := fun _ => hbus.topics (.inr hfresh)
      announcing := fun _ => rfl, running := rfl, created := fun _ => rfl }

theorem shutdown (h : Inv p) (hcreated : p.created = true) : Inv (shutdown env p).1 := by
  rw [Participant.shutdown]
  split
  · simp only [Action.andThen_fst, callBus_fst, modify_fst, sendFarewell_fst]
    exact
      { keyed := h.keyed, mirrors := (h.callBus env .stop rfl rfl).mirrors
        topics := fun hup => by simp [hcreated] at hup
        announcing := by rintro ⟨⟩, running := rfl, created := by rintro ⟨⟩ }
  · exact h

theorem exec (h : Inv p) {call : Call} (henabled : p.Enabled call) : Inv (exec env call p).1 := by
  obtain ⟨registryCall, -, hexec⟩ | - := exec_cases env call p
  · rw [hexec]
    exact h.callRegistry registryCall
  · cases call with
    | init => exact h.init henabled
    | createSubscriber pattern callback qos => exact h.announced rfl
    | createReplier service handler => exact h.announced rfl
    | destroySubscriber subId => exact h.notified henabled rfl
    | destroyReplier service => exact h.notified henabled rfl
    | shutdown => exact h.shutdown henabled
    | announceTimer => exact h
    | timeoutTimer => exact h.callRegistry _
    | received source data =>
        change Inv (recvCallback env source data p).1
        rw [recvCallback]
        split
        · split
          · rw [onDiscoveryMessage]
            split
            · exact h.callRegistry _
            · exact h
          · exact h.callBus env _ rfl rfl
        · exact h
    | _ => exact h.callBus env _ rfl rfl

end Inv

end Participant

end EmbedMq
