import EmbedMq.Discovery.Routable

/-!
# Whose record a frame changes

The registry of a node over whole runs: frames of any content arrive, and the timer
thread gives up silent peers, in any order.

A frame says twice who it comes from. The agent ignores its own frames by the header,
and an ANNOUNCE is filed under the id in its payload. So a frame changes only the
record of the node in its header if the two agree.

Only an ANNOUNCE says which domain it comes from. A HEARTBEAT or a FAREWELL of another
domain is taken for one of a peer with the same id, so the domains are separate as long
as there is no such peer.
-/

namespace EmbedMq

namespace PeerRegistry

/-- The record that a call is about. -/
def Call.key : Call → Option UInt16
  | .addOrUpdate peer => some peer.id
  | .remove peerId _ => some peerId
  | .checkTimeouts _ => none
  | .heartbeat peerId => some peerId

variable {now : Int} {call : Call} {reg : PeerRegistry} {id : UInt16}

theorem lookup_run_addOrUpdate (now : Int) (peer : PeerInfo) (reg : PeerRegistry) (id : UInt16) :
    (run now (.addOrUpdate peer) reg).state.records.lookup id =
      if id = peer.id then some ⟨peer, now⟩ else reg.records.lookup id := by
  rw [← Table.lookup_insert_eq, run, enter, addOrUpdate]
  cases reg.records.lookup peer.id <;> rfl

/-- A call leaves the other records as they are. -/
theorem lookup_run_of_key (h : call.key ≠ some id) :
    (run now call reg).state.records.lookup id = reg.records.lookup id := by
  cases call with
  | addOrUpdate peer =>
      rw [lookup_run_addOrUpdate, if_neg fun heq => h (congrArg some heq.symm)]
  | remove peerId triggerWill =>
      simp only [run, enter, remove]
      split
      · rfl
      · rw [Table.lookup_erase_eq, if_neg fun heq => h (congrArg some heq.symm)]
  | checkTimeouts timeoutMs => rfl
  | heartbeat peerId =>
      simp only [run, enter, heartbeat]
      split
      · rfl
      · rw [Table.lookup_insert_eq, if_neg fun heq => h (congrArg some heq.symm)]

theorem lookup_run_remove (now : Int) (triggerWill : Bool) (reg : PeerRegistry) (id : UInt16) :
    (run now (.remove id triggerWill) reg).state.records.lookup id = none := by
  simp only [run, enter, remove]
  split
  · assumption
  · rw [Table.lookup_erase_eq, if_pos rfl]

/-- Only `addOrUpdate` makes a record. -/
theorem lookup_run_none (hnone : reg.records.lookup id = none)
    (h : ∀ peer, call = .addOrUpdate peer → peer.id ≠ id) :
    (run now call reg).state.records.lookup id = none := by
  rw [Option.eq_none_iff_forall_ne_some]
  intro rec hrec
  obtain ⟨hadd, hid⟩ | ⟨_, old, hold, _⟩ := lookup_run hrec
  · exact h _ hadd hid
  · cases hnone.symm.trans hold

/-- The calls that do nothing to an unknown peer. -/
theorem run_unknown (hnone : reg.records.lookup id = none)
    (h : call = .heartbeat id ∨ ∃ triggerWill, call = .remove id triggerWill) :
    run now call reg = { state := reg } := by
  obtain rfl | ⟨triggerWill, rfl⟩ := h
  · simp only [run, enter, heartbeat, hnone]
  · simp only [run, enter, remove, hnone]

end PeerRegistry

/-- What a discovery agent reacts to. -/
inductive DiscoveryEvent where
  /-- A frame arrives. -/
  | frame (now : Int) (source : Endpoint) (data : Bytes)
  /-- The timer thread enters its next section. -/
  | timer (now : Int) (timeoutMs : UInt32)

/-- The registry of an agent, the removals that `checkTimeouts` has still to make, and the
callbacks so far. -/
structure DiscoveryState where
  registry : PeerRegistry := {}
  due : List PeerRegistry.Call := []
  callbacks : List PeerCallback := []

namespace DiscoveryAgent

open MessageCodec (decode)

/-- What a frame does to the registry. -/
def hear (agent : DiscoveryAgent) (now : Int) (source : Endpoint) (data : Bytes)
    (reg : PeerRegistry) : Outcome PeerRegistry PeerRegistry.Call PeerCallback :=
  match agent.onDiscoveryMessage source data with
  | some call => PeerRegistry.run now call reg
  | none => { state := reg }

/-- The section that the timer thread enters next. -/
def timerCall (timeoutMs : UInt32) : List PeerRegistry.Call → PeerRegistry.Call
  | [] => .checkTimeouts timeoutMs
  | call :: _ => call

def next (agent : DiscoveryAgent) (s : DiscoveryState) : DiscoveryEvent → DiscoveryState
  | .frame now source data =>
      let heard := agent.hear now source data s.registry
      { s with registry := heard.state, callbacks := s.callbacks ++ heard.effects }
  | .timer now timeoutMs =>
      let checked := PeerRegistry.run now (timerCall timeoutMs s.due) s.registry
      { registry := checked.state, due := s.due.tail ++ checked.next
        callbacks := s.callbacks ++ checked.effects }

/-- An agent with an empty registry, over any events. -/
def system (agent : DiscoveryAgent) : TransitionSystem DiscoveryState DiscoveryEvent where
  init s := s = {}
  enabled _ _ := True
  next := agent.next

/-- The state after some events. -/
def after (agent : DiscoveryAgent) (events : List DiscoveryEvent) : DiscoveryState :=
  agent.system.exec {} events

theorem after_frame (agent : DiscoveryAgent) (now : Int) (source : Endpoint) (data : Bytes) :
    (agent.after [.frame now source data]).registry = (agent.hear now source data {}).state := rfl

variable {agent sender : DiscoveryAgent} {now : Int} {source : Endpoint} {data : Bytes}

/-- A frame that leads to a call is valid and not the agent's own. -/
theorem onDiscoveryMessage_cases {call : PeerRegistry.Call}
    (h : agent.onDiscoveryMessage source data = some call) :
    (decode agent.sizeT data).valid = true ∧
      (decode agent.sizeT data).header.sourceId ≠ agent.nodeId ∧
      ((MessageType.ofByte (decode agent.sizeT data).header.msgType = .announce ∧
          ∃ peer, agent.parseAnnouncePayload (decode agent.sizeT data).payload = some peer ∧
            call = .addOrUpdate { peer with endpoints := resolve source peer.endpoints }) ∨
        call = .heartbeat (decode agent.sizeT data).header.sourceId ∨
        call = .remove (decode agent.sizeT data).header.sourceId false) := by
  simp only [onDiscoveryMessage] at h
  split at h
  · cases h
  · rename_i hvalid
    split at h
    · cases h
    · rename_i hother
      refine ⟨by simpa using hvalid, hother, ?_⟩
      split at h
      · rename_i htype
        obtain ⟨peer, hparsed, rfl⟩ := Option.map_eq_some_iff.mp h
        exact Or.inl ⟨htype, peer, hparsed, rfl⟩
      · exact Or.inr (Or.inl (Option.some.inj h).symm)
      · exact Or.inr (Or.inr (Option.some.inj h).symm)
      · cases h

/-! ### The id of the sender -/

/-- A frame changes only the record of the node in its header. -/
def OnlySender (agent : DiscoveryAgent) (data : Bytes) : Prop :=
  ∀ now source reg id, id ≠ (decode agent.sizeT data).header.sourceId →
    (agent.hear now source data reg).state.records.lookup id = reg.records.lookup id

/-- The frame is an ANNOUNCE that the agent accepts. -/
def Announces (agent : DiscoveryAgent) (data : Bytes) : Prop :=
  (decode agent.sizeT data).valid = true ∧
    (decode agent.sizeT data).header.sourceId ≠ agent.nodeId ∧
    MessageType.ofByte (decode agent.sizeT data).header.msgType = .announce ∧
    (agent.parseAnnouncePayload (decode agent.sizeT data).payload).isSome = true

/-- An accepted ANNOUNCE has the same id in its header and in its payload. -/
def Truthful (agent : DiscoveryAgent) (data : Bytes) : Prop :=
  agent.Announces data →
    announcedId (decode agent.sizeT data).payload = (decode agent.sizeT data).header.sourceId

theorem onDiscoveryMessage_announces (h : agent.Announces data) :
    ∃ peer, peer.id = announcedId (decode agent.sizeT data).payload ∧
      agent.onDiscoveryMessage source data = some (.addOrUpdate peer) := by
  obtain ⟨hvalid, hother, htype, haccepted⟩ := h
  obtain ⟨peer, hparsed⟩ := Option.isSome_iff_exists.mp haccepted
  have hid := parseAnnouncePayload_id hparsed
  refine ⟨{ peer with endpoints := resolve source peer.endpoints }, hid, ?_⟩
  simp only [onDiscoveryMessage, hvalid, htype, hparsed, if_neg hother, Bool.not_true,
    Bool.false_eq_true, if_false, Option.map_some]

/-- An accepted ANNOUNCE is filed under the id in its payload. -/
theorem hear_announces (h : agent.Announces data) (now : Int) (source : Endpoint)
    (reg : PeerRegistry) :
    (agent.hear now source data reg).state.records.lookup
      (announcedId (decode agent.sizeT data).payload) ≠ none := by
  obtain ⟨peer, hid, hcall⟩ := @onDiscoveryMessage_announces agent source data h
  simp only [hear, hcall]
  rw [PeerRegistry.lookup_run_addOrUpdate, if_pos hid.symm]
  simp

/-- The call that a truthful frame leads to is about its sender. -/
theorem key_of_truthful (h : agent.Truthful data) {call : PeerRegistry.Call}
    (hcall : agent.onDiscoveryMessage source data = some call) :
    call.key = some (decode agent.sizeT data).header.sourceId ∧
      (decode agent.sizeT data).header.sourceId ≠ agent.nodeId := by
  obtain ⟨hvalid, hother, ⟨htype, peer, hparsed, rfl⟩ | rfl | rfl⟩ :=
    onDiscoveryMessage_cases hcall
  · refine ⟨congrArg some ?_, hother⟩
    have haccepted : agent.Announces data :=
      ⟨hvalid, hother, htype, Option.isSome_iff_exists.mpr ⟨peer, hparsed⟩⟩
    exact (parseAnnouncePayload_id hparsed).trans (h haccepted)
  · exact ⟨rfl, hother⟩
  · exact ⟨rfl, hother⟩

theorem onlySender_iff_truthful : agent.OnlySender data ↔ agent.Truthful data := by
  constructor
  · intro honly haccepted
    by_contra hforged
    have hkept := honly 0 { address := [], transportType := [] } {} _ hforged
    exact hear_announces haccepted _ _ _ hkept
  · intro htruthful now source reg id hid
    cases hcall : agent.onDiscoveryMessage source data with
    | none => simp only [hear, hcall]
    | some call =>
        simp only [hear, hcall]
        refine PeerRegistry.lookup_run_of_key fun hkey => hid ?_
        exact Option.some.inj (hkey.symm.trans (key_of_truthful htruthful hcall).1)

/-! ### The agent's own id -/

/-- The registry does not hold the agent itself, and the timer thread only removes. -/
structure WithoutSelf (agent : DiscoveryAgent) (s : DiscoveryState) : Prop where
  registry : s.registry.records.lookup agent.nodeId = none
  due : ∀ call ∈ s.due, ∃ id triggerWill, call = .remove id triggerWill

theorem withoutSelf_frame {s : DiscoveryState} (h : agent.WithoutSelf s)
    (htruthful : agent.Truthful data) :
    agent.WithoutSelf (agent.next s (.frame now source data)) := by
  refine ⟨?_, h.due⟩
  have hkept := onlySender_iff_truthful.mpr htruthful now source s.registry agent.nodeId
  by_cases hself : agent.nodeId = (decode agent.sizeT data).header.sourceId
  · -- The agent takes the frame for its own.
    have hignored : agent.onDiscoveryMessage source data = none := by
      rw [Option.eq_none_iff_forall_ne_some]
      intro call hcall
      exact (key_of_truthful htruthful hcall).2 hself.symm
    simp only [next, hear, hignored]
    exact h.registry
  · exact (hkept hself).trans h.registry

theorem withoutSelf_timer {s : DiscoveryState} (h : agent.WithoutSelf s) (timeoutMs : UInt32) :
    agent.WithoutSelf (agent.next s (.timer now timeoutMs)) := by
  have hremovals : ∀ call ∈ (PeerRegistry.run now (timerCall timeoutMs s.due) s.registry).next,
      ∃ id triggerWill, call = .remove id triggerWill := by
    intro call hmem
    cases hdue : s.due with
    | nil =>
        rw [hdue] at hmem
        obtain ⟨id, _, rfl⟩ := List.mem_map.mp hmem
        exact ⟨id, true, rfl⟩
    | cons first rest =>
        obtain ⟨id, triggerWill, hfirst⟩ := h.due first (hdue ▸ List.mem_cons_self)
        rw [hdue, timerCall, hfirst] at hmem
        exact absurd hmem List.not_mem_nil
  refine ⟨PeerRegistry.lookup_run_none h.registry fun peer hadd => ?_, fun call hmem => ?_⟩
  · cases hdue : s.due with
    | nil =>
        rw [hdue] at hadd
        cases hadd
    | cons first rest =>
        obtain ⟨id, triggerWill, hfirst⟩ := h.due first (hdue ▸ List.mem_cons_self)
        rw [hdue, timerCall, hfirst] at hadd
        cases hadd
  · obtain hold | hnew := List.mem_append.mp hmem
    · exact h.due call (List.mem_of_mem_tail hold)
    · exact hremovals call hnew

theorem withoutSelf_exec {s : DiscoveryState} (h : agent.WithoutSelf s)
    {events : List DiscoveryEvent}
    (htruthful : ∀ now source data, .frame now source data ∈ events → agent.Truthful data) :
    agent.WithoutSelf (agent.system.exec s events) := by
  induction events generalizing s with
  | nil => exact h
  | cons event events ih =>
      have hrest : ∀ now source data, .frame now source data ∈ events → agent.Truthful data :=
        fun now source data hmem => htruthful now source data (List.mem_cons_of_mem _ hmem)
      cases event with
      | frame now source data =>
          exact ih (withoutSelf_frame h (htruthful now source data List.mem_cons_self)) hrest
      | timer now timeoutMs => exact ih (withoutSelf_timer h timeoutMs) hrest

/-- Every frame of a run changes only the record of its sender, and the agent itself never has a
record, if and only if the accepted ANNOUNCEs have the same id in their headers and payloads. -/
theorem onlySenders_iff (agent : DiscoveryAgent) (events : List DiscoveryEvent) :
    ((∀ now source data, .frame now source data ∈ events → agent.OnlySender data) ∧
        ∀ n, (agent.after (events.take n)).registry.records.lookup agent.nodeId = none) ↔
      ∀ now source data, .frame now source data ∈ events → agent.Truthful data := by
  constructor
  · rintro ⟨honly, _⟩ now source data hmem
    exact onlySender_iff_truthful.mp (honly now source data hmem)
  · intro htruthful
    refine ⟨fun now source data hmem => ?_, fun n => ?_⟩
    · exact onlySender_iff_truthful.mpr (htruthful now source data hmem)
    · have hstart : agent.WithoutSelf {} := ⟨rfl, fun _ hmem => absurd hmem List.not_mem_nil⟩
      refine (withoutSelf_exec hstart fun now source data hmem => ?_).registry
      exact htruthful now source data (List.mem_of_mem_take hmem)

/-- An ANNOUNCE with another id in its payload. -/
def forgedFrame : Bytes :=
  MessageCodec.encode ((plain 2).frameArgs .announce ((plain 1).buildAnnouncePayload [] [])) 0

/-- A forged frame makes a record of the node that receives it. -/
theorem not_onlySenders :
    ¬ ∀ (agent : DiscoveryAgent) (events : List DiscoveryEvent),
      (∀ now source data, .frame now source data ∈ events → agent.OnlySender data) ∧
        ∀ n, (agent.after (events.take n)).registry.records.lookup agent.nodeId = none := by
  intro hclaim
  obtain ⟨_, hself⟩ := hclaim (plain 1)
    [.frame 0 { address := [], transportType := [] } forgedFrame]
  have henc : MessageCodec.Encodable
      ((plain 2).frameArgs .announce ((plain 1).buildAnnouncePayload [] [])) := by
    refine ⟨Nat.zero_le _, ?_⟩
    decide
  have hdecode := MessageCodec.decode_encode henc 0 (plain 1).sizeT
  have haccepted : (plain 1).Announces forgedFrame := by
    rw [Announces, forgedFrame, hdecode]
    refine ⟨rfl, by decide, MessageCodec.encodedHeader_type _ _, ?_⟩
    have hwill : (plain 1).WillFits := by simp [WillFits, plain]
    have hparsed := @parseAnnouncePayload_append (plain 1) (plain 1) [] [] rfl hwill []
    rw [List.append_nil] at hparsed
    change ((plain 1).parseAnnouncePayload ((plain 1).buildAnnouncePayload [] [])).isSome = true
    rw [hparsed]
    rfl
  have hforged : announcedId (decode (plain 1).sizeT forgedFrame).payload = (plain 1).nodeId := by
    rw [forgedFrame, hdecode]
    decide
  have hempty := hself 1
  rw [List.take_succ_cons, List.take_zero, after_frame, ← hforged] at hempty
  exact hear_announces haccepted _ _ _ hempty

/-! ### The domain of the sender -/

/-- What an agent sends. -/
inductive Message where
  | announce (topics : List Bytes) (eps : List Endpoint)
  | heartbeat
  | farewell

def Message.frame (sender : DiscoveryAgent) : Message → Bytes
  | announce topics eps => sender.announceFrame topics eps
  | heartbeat => sender.heartbeatFrame
  | farewell => sender.farewellFrame

/-- What an agent reacts to, with the node that a frame comes from. -/
inductive Signal where
  | frame (now : Int) (source : Endpoint) (sender : DiscoveryAgent) (message : Message)
  | timer (now : Int) (timeoutMs : UInt32)

namespace Signal

def event : Signal → DiscoveryEvent
  | frame now source sender message => .frame now source (message.frame sender)
  | timer now timeoutMs => .timer now timeoutMs

/-- It does not come from another domain. -/
def inDomain (agent : DiscoveryAgent) : Signal → Bool
  | frame _ _ sender _ => decide (sender.domainId = agent.domainId)
  | timer _ _ => true

/-- A HEARTBEAT or a FAREWELL of another domain does not have the id of a peer. -/
def Unmistaken (agent : DiscoveryAgent) (s : DiscoveryState) : Signal → Prop
  | frame _ _ _ (.announce _ _) | timer _ _ => True
  | frame _ _ sender .heartbeat | frame _ _ sender .farewell =>
      sender.domainId ≠ agent.domainId → s.registry.records.lookup sender.nodeId = none

end Signal

/-- An agent among the nodes of all domains. -/
def domains (agent : DiscoveryAgent) : TransitionSystem DiscoveryState Signal where
  init s := s = {}
  enabled _ _ := True
  next s signal := agent.next s signal.event

theorem onDiscoveryMessage_foreign (hdomain : sender.domainId ≠ agent.domainId)
    (topics : List Bytes) (eps : List Endpoint) :
    agent.onDiscoveryMessage source (sender.announceFrame topics eps) = none := by
  rw [Option.eq_none_iff_forall_ne_some]
  intro call hcall
  obtain ⟨_, _, hadd, _⟩ := onDiscoveryMessage_announce hcall
  obtain ⟨hvalid, _, ⟨_, peer, hparsed, _⟩ | hbeat | hleave⟩ := onDiscoveryMessage_cases hcall
  · rw [announceFrame] at hvalid hparsed
    rw [MessageCodec.decode_encode (MessageCodec.encodable_of_valid hvalid)] at hparsed
    have hnone := parseAnnouncePayload_domain topics eps hdomain
    cases hnone.symm.trans hparsed
  · cases hadd.symm.trans hbeat
  · cases hadd.symm.trans hleave

/-- A frame of another domain that is not mistaken changes nothing. -/
theorem next_foreign {s : DiscoveryState} {signal : Signal} (h : signal.Unmistaken agent s)
    (hforeign : signal.inDomain agent = false) : agent.domains.next s signal = s := by
  cases signal with
  | timer now timeoutMs => cases hforeign
  | frame now source sender message =>
      have hdomain : sender.domainId ≠ agent.domainId := of_decide_eq_false hforeign
      have hheard : agent.hear now source (message.frame sender) s.registry =
          { state := s.registry } := by
        cases message with
        | announce topics eps =>
            simp only [hear, Message.frame, onDiscoveryMessage_foreign hdomain]
        | heartbeat =>
            simp only [hear, Message.frame, onDiscoveryMessage_heartbeat]
            by_cases hself : sender.nodeId = agent.nodeId
            · simp only [if_pos hself]
            · simp only [if_neg hself]
              exact PeerRegistry.run_unknown (h hdomain) (Or.inl rfl)
        | farewell =>
            simp only [hear, Message.frame, onDiscoveryMessage_farewell]
            by_cases hself : sender.nodeId = agent.nodeId
            · simp only [if_pos hself]
            · simp only [if_neg hself]
              exact PeerRegistry.run_unknown (h hdomain) (Or.inr ⟨false, rfl⟩)
      change agent.next s (.frame now source (message.frame sender)) = s
      simp only [next, hheard, List.append_nil]

/-- In every run in which no HEARTBEAT or FAREWELL of another domain has the id of a peer, the
registry and the callbacks are the same as without the frames of the other domains. -/
theorem domains_isolated {signals : List Signal}
    (h : (agent.domains.restrict fun s signal => signal.Unmistaken agent s).Admits {} signals) :
    (agent.domains.exec {} signals).registry =
        (agent.domains.exec {} (signals.filter (Signal.inDomain agent))).registry ∧
      (agent.domains.exec {} signals).callbacks =
        (agent.domains.exec {} (signals.filter (Signal.inDomain agent))).callbacks := by
  have hsame := TransitionSystem.exec_filter (fun s signal => next_foreign) h
  rw [hsame]
  exact ⟨rfl, rfl⟩

/-! ### A peer and a node of another domain with the same id -/

theorem exec_frame (agent : DiscoveryAgent) (signals : List Signal) (now : Int) (source : Endpoint)
    (sender : DiscoveryAgent) (message : Message) :
    (agent.domains.exec {} (signals ++ [.frame now source sender message])).registry =
      (agent.hear now source (message.frame sender)
        (agent.domains.exec {} signals).registry).state := by
  rw [TransitionSystem.exec, List.foldl_append]
  rfl

theorem exec_announce (hdomain : sender.domainId = agent.domainId)
    (hid : sender.nodeId ≠ agent.nodeId) {topics : List Bytes} {eps : List Endpoint}
    (henc : MessageCodec.Encodable
      (sender.frameArgs .announce (sender.buildAnnouncePayload topics eps)))
    (now : Int) (source : Endpoint) (signals : List Signal) :
    (agent.domains.exec {} (signals ++ [.frame now source sender (.announce topics eps)])
      ).registry.records.lookup sender.nodeId ≠ none := by
  rw [exec_frame]
  simp only [hear, Message.frame, onDiscoveryMessage_record hdomain hid source henc]
  rw [PeerRegistry.lookup_run_addOrUpdate, if_pos (record_id topics eps).symm]
  simp

theorem exec_farewell (hid : sender.nodeId ≠ agent.nodeId) (now : Int) (source : Endpoint)
    (signals : List Signal) :
    (agent.domains.exec {} (signals ++ [.frame now source sender .farewell])
      ).registry.records.lookup sender.nodeId = none := by
  rw [exec_frame]
  simp only [hear, Message.frame, onDiscoveryMessage_farewell, if_neg hid]
  exact PeerRegistry.lookup_run_remove _ _ _ _

/-- A node of another domain. -/
def foreigner : DiscoveryAgent := { plain 2 with domainId := 1 }

/-- A peer joins. -/
def joins : Signal :=
  .frame 0 { address := [], transportType := [] } (plain 2) (.announce [] [])

/-- A node of another domain with the same id leaves. -/
def leaves : Signal := .frame 0 { address := [], transportType := [] } foreigner .farewell

theorem domains_isolated_joins :
    ((plain 1).domains.exec {} [leaves, joins]).callbacks =
      ((plain 1).domains.exec {} [joins]).callbacks := by
  have hunmistaken : ((plain 1).domains.restrict fun s signal =>
      signal.Unmistaken (plain 1) s).Admits {} [leaves, joins] :=
    ⟨⟨trivial, fun _ => rfl⟩, ⟨trivial, trivial⟩, trivial⟩
  exact (domains_isolated hunmistaken).2

/-- The peer is removed when the node of the other domain leaves. -/
theorem not_domains_isolated :
    ¬ ∀ (agent : DiscoveryAgent) (signals : List Signal),
      (agent.domains.exec {} signals).registry =
          (agent.domains.exec {} (signals.filter (Signal.inDomain agent))).registry ∧
        (agent.domains.exec {} signals).callbacks =
          (agent.domains.exec {} (signals.filter (Signal.inDomain agent))).callbacks := by
  intro hclaim
  have hsame := (hclaim (plain 1) [joins, leaves]).1
  have henc : MessageCodec.Encodable
      ((plain 2).frameArgs .announce ((plain 2).buildAnnouncePayload [] [])) := by
    refine ⟨Nat.zero_le _, ?_⟩
    decide
  have hid : (plain 2).nodeId ≠ (plain 1).nodeId := by decide
  have hjoined := @exec_announce (plain 1) (plain 2) rfl hid [] [] henc 0
    { address := [], transportType := [] } []
  have hleft := @exec_farewell (plain 1) foreigner hid 0 { address := [], transportType := [] }
    [joins]
  have hown : [joins, leaves].filter (Signal.inDomain (plain 1)) = [joins] := rfl
  rw [hown] at hsame
  refine hjoined ?_
  rw [List.nil_append, ← joins, ← hsame]
  exact hleft

end DiscoveryAgent

end EmbedMq
