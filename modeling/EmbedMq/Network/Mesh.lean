import EmbedMq.Concurrent.Frames
import EmbedMq.Concurrent.Sequential
import EmbedMq.Network.Provenance

/-!
# Nodes with several threads on a network

In a `World` a node executes a whole call in one step. Here a node is a bus with any number of
calls in progress, and a step runs one action of one call of one node, or begins a call. So a frame
that a call has sent may be received, answered and acted upon elsewhere before the call goes on.
The network is the same: a frame that a node has handed to its transport may be received by the
owner of the destination, at any later time, any number of times or never.
-/

namespace EmbedMq

/-- The nodes, each with its calls in progress. -/
structure Mesh (ι : Type) where
  nodes : ι → BusThreads

namespace Mesh

open BusThreads (Decodes Transmitted)
open MessageBus (Prompts)
open MessageCodec (EncodeArgs DecodeResult Encodable encode decode)

variable {ι : Type}

/-- A node has handed these bytes to its transport for this destination. -/
def Sent (m : Mesh ι) (node : ι) (dest : Endpoint) (data : Bytes) : Prop :=
  ∃ e ∈ (m.nodes node).log, ∃ effect ∈ (e.outcome Action.run).effects,
    effect.packet = some (dest, data)

instance (m : Mesh ι) (node : ι) (dest : Endpoint) (data : Bytes) :
    Decidable (m.Sent node dest data) :=
  inferInstanceAs (Decidable (∃ e ∈ (m.nodes node).log, _))

variable (D : Deployment ι)

/-- Whether a frame may arrive at a node with this source endpoint. -/
def Arrives (m : Mesh ι) (node : ι) (source : Endpoint) (data : Bytes) : Prop :=
  ∃ sender dest, m.Sent sender dest data ∧ D.owner dest = some node ∧
    (D.owner source = some sender ∨ D.owner source = none)

/-- A step: at one node a call begins, or one that is in progress runs its next action. -/
structure Label (ι : Type) where
  node : ι
  move : Threads.Label Env Action

variable [DecidableEq ι]

def step (m : Mesh ι) (l : Label ι) : Mesh ι where
  nodes := Function.update m.nodes l.node ((m.nodes l.node).next Action.run l.move)

/-- All interleavings of the threads of a deployment. -/
def system : TransitionSystem (Mesh ι) (Label ι) where
  init m := ∀ n, m.nodes n = BusThreads.idle (World.initialBus D n)
  enabled m l := BusThreads.system.enabled (m.nodes l.node) l.move ∧
    ∀ source data, l.move = .start [.receive source data] → m.Arrives D l.node source data
  next := step

/-- The runs whose BestEffort messages fit the header. -/
def fitting : TransitionSystem (Mesh ι) (Label ι) :=
  (system D).restrict fun m l => BusThreads.Fitting (m.nodes l.node) l.move

/-- Fewer than `2 ^ 32` sequence numbers have been used by every node. -/
def NumbersLeft (m : Mesh ι) : Prop := ∀ n, (m.nodes n).shared.seqCounter ≤ 2 ^ 32

variable {D} {m : Mesh ι}

theorem step_node_cases (l : Label ι) (n : ι) :
    (n = l.node ∧ (m.step l).nodes n = (m.nodes n).next Action.run l.move) ∨
      (n ≠ l.node ∧ (m.step l).nodes n = m.nodes n) := by
  by_cases h : n = l.node
  · subst h
    exact Or.inl ⟨rfl, Function.update_self _ _ _⟩
  · exact Or.inr ⟨h, Function.update_of_ne h _ _⟩

/-! ### One node -/

/-- A run of the deployment is a run of each of its nodes. -/
theorem reachable_node {cond : Mesh ι → Label ι → Prop}
    {cond' : BusThreads → Threads.Label Env Action → Prop}
    (hcond : ∀ m l, cond m l → cond' (m.nodes l.node) l.move)
    (h : ((system D).restrict cond).Reachable m) (n : ι) :
    (BusThreads.system.restrict cond').Reachable (m.nodes n) := by
  induction h with
  | @init m hinit =>
      rw [hinit n]
      exact .init ⟨rfl, rfl, rfl⟩
  | @step m l _ henabled ih =>
      obtain ⟨rfl, hnode⟩ | ⟨_, hnode⟩ := step_node_cases (m := m) l n
      · change (BusThreads.system.restrict cond').Reachable ((m.step l).nodes l.node)
        rw [hnode]
        exact ih.step ⟨henabled.1.1, hcond m l henabled.2⟩
      · change (BusThreads.system.restrict cond').Reachable ((m.step l).nodes n)
        rw [hnode]
        exact ih

theorem fitting_node (h : (fitting D).Reachable m) (n : ι) :
    (BusThreads.system.restrict BusThreads.Fitting).Reachable (m.nodes n) :=
  reachable_node (fun _ _ hfits => hfits) h n

theorem node_nodeId (h : (system D).Reachable m) (n : ι) :
    (m.nodes n).shared.nodeId = D.nodeId n := by
  induction h with
  | @init m hinit =>
      rw [hinit n]
      rfl
  | @step m l _ _ ih =>
      obtain ⟨_, hnode⟩ | ⟨_, hnode⟩ := step_node_cases (m := m) l n
      · change ((m.step l).nodes n).shared.nodeId = _
        rw [hnode, BusThreads.next_nodeId]
        exact ih
      · change ((m.step l).nodes n).shared.nodeId = _
        rw [hnode]
        exact ih

/-! ### Received frames -/

theorem Sent.mono {n : ι} {dest : Endpoint} {data : Bytes} (h : m.Sent n dest data) (l : Label ι) :
    (m.step l).Sent n dest data := by
  obtain ⟨e, he, hrest⟩ := h
  refine ⟨e, ?_, hrest⟩
  obtain ⟨_, hnode⟩ | ⟨_, hnode⟩ := step_node_cases (m := m) l n
  · rw [hnode]
    exact Threads.mem_log_next he l.move
  · rw [hnode]
    exact he

theorem Arrives.mono {n : ι} {source : Endpoint} {data : Bytes} (h : m.Arrives D n source data)
    (l : Label ι) : (m.step l).Arrives D n source data := by
  obtain ⟨sender, dest, hsent, hrest⟩ := h
  exact ⟨sender, dest, hsent.mono l, hrest⟩

/-- A frame that a call receives had been sent. -/
theorem receive_arrives (h : (system D).Reachable m) {n : ι} {source : Endpoint} {data : Bytes}
    (hreceive : (m.nodes n).Involves (.receive source data)) : m.Arrives D n source data := by
  induction h with
  | @init m hinit =>
      rw [hinit n] at hreceive
      obtain ⟨i, call, hcall, _⟩ | ⟨e, he, _⟩ := hreceive
      · cases hcall
      · exact absurd he List.not_mem_nil
  | @step m l _ henabled ih =>
      change ((m.step l).nodes n).Involves (.receive source data) at hreceive
      change (m.step l).Arrives D n source data
      obtain ⟨rfl, hnode⟩ | ⟨_, hnode⟩ := step_node_cases (m := m) l n
      · rw [hnode] at hreceive
        obtain hold | ⟨actions, hmove, hmem⟩ | ⟨_, _, _, _, _, hnext⟩ :=
          Threads.involves_next hreceive
        · exact (ih hold).mono l
        · obtain ⟨hentry, harrives⟩ := henabled
          rw [hmove] at hentry
          obtain ⟨call, rfl⟩ := hentry
          rw [← List.mem_singleton.mp hmem] at hmove
          exact (harrives source data hmove).mono l
        · cases Action.asks_of_mem hnext with
          | receive _ _ _ hreceives =>
              cases hreceives with
              | dispatches hdispatches => cases hdispatches
          | isDuplicate _ _ hdispatches => cases hdispatches
      · rw [hnode] at hreceive
        exact (ih hreceive).mono l

theorem decodes_arrives (h : (system D).Reachable m) {n : ι} {e : BusEvent}
    (he : e ∈ (m.nodes n).log) {source : Endpoint} {r : DecodeResult}
    (hdecodes : Decodes e source r) :
    ∃ data, e.action = .receive source data ∧ r = decode e.before.sizeT data ∧ r.valid = true ∧
      m.Arrives D n source data := by
  obtain ⟨data, haction, hr, hvalid⟩ := hdecodes
  exact ⟨data, haction, hr, hvalid, receive_arrives h (Or.inr ⟨e, he, haction⟩)⟩

/-! ### Where a received frame comes from -/

theorem isAcknowledgement_of_prompts {type : MessageType} {r : DecodeResult}
    (h : Prompts type r) : MessageBus.isAcknowledgement type = true := by
  cases type with
  | ack => rfl
  | pubrec => rfl
  | pubrel => rfl
  | pubcomp => rfl
  | _ => exact h.elim

/-- A PUBLISH, REQUEST or REPLY that was sent is a numbered frame. -/
theorem sent_data (h : (fitting D).Reachable m) {n : ι} {dest : Endpoint} {data : Bytes}
    (hsent : m.Sent n dest data) {sz : SizeT} (hvalid : (decode sz data).valid = true)
    (htype : MessageBus.isAcknowledgement
      (MessageType.ofByte (decode sz data).header.msgType) = false) :
    ∃ e ∈ (m.nodes n).log, ∃ number slices args stamp,
      .frame number dest slices ∈ (e.outcome Action.run).effects ∧ slices.flatten = data ∧
      data = encode args stamp ∧ Encodable args ∧
      Action.Framed e.before e.action number args := by
  have hnode := fitting_node h n
  obtain ⟨e, he, effect, heffect, hpacket⟩ := hsent
  cases BusThreads.transmitted hnode he heffect hpacket with
  | @frame first number slices hfirst hframe =>
      obtain ⟨args, stamp, hencode, hframed⟩ :=
        Action.framed (BusThreads.event_fits hnode hfirst) hframe
      rw [hencode] at hvalid
      exact ⟨first, hfirst, number, slices, args, stamp, hframe, rfl, hencode,
        MessageCodec.encodable_of_valid hvalid, hframed⟩
  | control b stamp _ _ hprompts =>
      rw [(World.decode_control _ _ _ _ _ _).1, isAcknowledgement_of_prompts hprompts] at htype
      cases htype
  | release hpubrel =>
      obtain ⟨b, stamp, rfl⟩ := hpubrel
      rw [(World.decode_control _ _ _ _ _ _).1] at htype
      cases htype

/-- An ACK or PUBREC that was sent answers a frame that its sender has decoded, and goes to where
this frame came from. -/
theorem sent_control (h : (fitting D).Reachable m) {n : ι} {dest : Endpoint} {data : Bytes}
    (hsent : m.Sent n dest data) {sz : SizeT} (hvalid : (decode sz data).valid = true)
    {type : MessageType} (htype : MessageType.ofByte (decode sz data).header.msgType = type)
    (hack : type = .ack ∨ type = .pubrec) :
    ∃ e ∈ (m.nodes n).log, ∃ r, Decodes e dest r ∧ Prompts type r ∧
      r.header.sequenceId = (decode sz data).header.sequenceId := by
  have hnode := fitting_node h n
  obtain ⟨e, he, effect, heffect, hpacket⟩ := hsent
  cases BusThreads.transmitted hnode he heffect hpacket with
  | @frame first number slices hfirst hframe =>
      obtain ⟨args, stamp, hencode, hframed⟩ :=
        Action.framed (BusThreads.event_fits hnode hfirst) hframe
      rw [hencode] at hvalid htype
      rw [MessageCodec.decode_encode (MessageCodec.encodable_of_valid hvalid),
        MessageCodec.encodedHeader_type] at htype
      obtain hargs | hargs | hargs := hframed.type
      all_goals
        rw [hargs] at htype
        subst htype
        obtain hack | hack := hack <;> cases hack
  | @control first type' r b stamp hfirst hdecodes hprompts =>
      obtain ⟨hdecoded, hnumber⟩ := World.decode_control b type' r.header.sequenceId {} stamp sz
      obtain rfl := hdecoded.symm.trans htype
      exact ⟨first, hfirst, r, hdecodes, hprompts, hnumber.symm⟩
  | release hpubrel =>
      obtain ⟨b, stamp, rfl⟩ := hpubrel
      rw [(World.decode_control _ _ _ _ _ _).1] at htype
      subst htype
      obtain hack | hack := hack <;> cases hack

/-! ### Frames for one target -/

/-- The bytes of a frame with a message, as its target decodes them. -/
structure Carries (D : Deployment ι) (n : ι) (topic payload : Bytes) (qos : QoSProfile)
    (number : Nat) (r : DecodeResult) : Prop where
  type : MessageType.ofByte r.header.msgType = .publish
  level : QoSLevel.ofByte r.header.qosLevel = qos.level
  topic : r.topic = topic
  payload : r.payload = payload
  sourceId : r.header.sourceId = D.nodeId n
  sequenceId : r.header.sequenceId = UInt32.ofNat number

section Target

variable (h : (fitting D).Reachable m) (hnumbers : m.NumbersLeft) {n : ι} {e : BusEvent}
  (he : e ∈ (m.nodes n).log) {topic payload : Bytes} {qos : QoSProfile} {flags : UInt8}
  {dest : Endpoint} (haction : e.action = .sendTo topic payload qos flags dest) {number : Nat}
  {slices : List Bytes} (hframe : .frame number dest slices ∈ (e.outcome Action.run).effects)
include h hnumbers he haction hframe

/-- A data frame that a peer has decoded, from an endpoint of the sender and with the number of a
message, is the frame of this message, and the peer is its target. -/
theorem decoded_frame {peer : ι} {e' : BusEvent} (he' : e' ∈ (m.nodes peer).log)
    {source : Endpoint} {r : DecodeResult} (hdecodes : Decodes e' source r)
    (htype : MessageBus.isAcknowledgement (MessageType.ofByte r.header.msgType) = false)
    (hq : r.header.sequenceId = UInt32.ofNat number) (howner : D.owner source = some n) :
    D.owner dest = some peer ∧ e'.action = .receive source slices.flatten ∧
      Carries D n topic payload qos number r := by
  obtain ⟨data, hreceive, rfl, hvalid, sender, dest', hsent, hdest, hsource⟩ :=
    decodes_arrives h.of_restrict he' hdecodes
  obtain rfl : sender = n := by
    obtain hsource | hsource := hsource
    · exact Option.some.inj (hsource.symm.trans howner)
    · cases hsource.symm.trans howner
  obtain ⟨first, hfirst, number', slices', args, stamp, hframe', rfl, hencode, hencodable,
    hframed⟩ := sent_data h hsent hvalid htype
  rw [hencode, MessageCodec.decode_encode hencodable] at hq
  obtain ⟨rfl, rfl⟩ := BusThreads.frame_unique (fitting_node h sender) (hnumbers sender) he hfirst
    hframe hframe' (hq.symm.trans hframed.number)
  have honly := hframe
  rw [Event.outcome, haction] at honly hframe'
  rw [Action.sendTo_frame honly] at hframe'
  obtain ⟨_, rfl, rfl⟩ := Effect.frame.inj (List.mem_singleton.mp hframe')
  obtain ⟨hpublish, rfl, rfl, rfl⟩ := hframed.message haction
  have hsourceId : args.sourceId = D.nodeId sender := by
    rw [hframed.source, BusThreads.event_nodeId (fitting_node h sender) he,
      node_nodeId h.of_restrict]
  refine ⟨hdest, hreceive, ?_⟩
  rw [hencode, MessageCodec.decode_encode hencodable]
  exact ⟨by rw [MessageCodec.encodedHeader_type, hpublish], MessageCodec.encodedHeader_level _ _,
    rfl, rfl, hsourceId, hframed.number⟩

/-- An ACK or PUBREC with the number of a message shows that the target of its frame has decoded
this frame, and that the frame asks for such an answer. -/
theorem answered_frame {asker : BusEvent} (hasker : asker ∈ (m.nodes n).log) {source : Endpoint}
    {answer : DecodeResult} (hdecodes : Decodes asker source answer) {type : MessageType}
    (htype : MessageType.ofByte answer.header.msgType = type) (hack : type = .ack ∨ type = .pubrec)
    (hq : answer.header.sequenceId = UInt32.ofNat number) :
    ∃ peer, D.owner dest = some peer ∧ ∃ e' ∈ (m.nodes peer).log, ∃ source' r,
      e'.action = .receive source' slices.flatten ∧ Decodes e' source' r ∧ Prompts type r ∧
      Carries D n topic payload qos number r := by
  obtain ⟨data, _, rfl, hvalid, peer, dest', hsent, howner, _⟩ :=
    decodes_arrives h.of_restrict hasker hdecodes
  obtain ⟨e', he', r, hprompted, hprompts, hseq⟩ := sent_control h hsent hvalid htype hack
  have hdata : MessageBus.isAcknowledgement (MessageType.ofByte r.header.msgType) = false := by
    obtain rfl | rfl := hack
    · obtain ⟨hpublish, _⟩ | ⟨hreply, _⟩ := hprompts
      · rw [hpublish]
        rfl
      · rw [hreply]
        rfl
    · rw [hprompts.1]
      rfl
  obtain ⟨hdest, hreceive, hcarries⟩ :=
    decoded_frame h hnumbers he haction hframe he' hprompted hdata (hseq.trans hq) howner
  exact ⟨peer, hdest, e', he', dest', r, hreceive, hprompted, hprompts, hcarries⟩

end Target

/-! ### Nodes that run one call after the other -/

/-- The threads have done what the nodes of a world have done, and no call is in progress. -/
structure Follows (m : Mesh ι) (w : World ι) : Prop where
  shared : ∀ n, (m.nodes n).shared = w.nodes n
  effects : ∀ n, Threads.effects Action.run (m.nodes n).log =
    (w.log.filter fun e => e.node = n).reverse.flatMap LogEntry.effects
  idle : ∀ n i a, ¬ (m.nodes n).Waiting i a

theorem Follows.arrives {w : World ι} (h : m.Follows w) {n : ι} {source : Endpoint} {data : Bytes}
    (ha : w.Arrives D n source data) : m.Arrives D n source data := by
  obtain ⟨sender, dest, ⟨e, he, hnode, effect, heffect, hpacket⟩, hrest⟩ := ha
  have hmem : effect ∈ Threads.effects Action.run (m.nodes sender).log := by
    rw [h.effects sender]
    exact List.mem_flatMap.mpr ⟨e,
      List.mem_reverse.mpr (List.mem_filter.mpr ⟨he, decide_eq_true hnode⟩), heffect⟩
  obtain ⟨event, hevent, heffect'⟩ := List.mem_flatMap.mp hmem
  exact ⟨sender, dest, ⟨event, List.mem_reverse.mp hevent, effect, heffect', hpacket⟩, hrest⟩

/-- The steps of one node's calls in progress are steps of the network. -/
theorem reachable_exec_node (h : (system D).Reachable m) {n : ι}
    {moves : List (Threads.Label Env Action)} (hsteps : ∀ l ∈ moves, ∃ i env, l = .step i env)
    (hadmits : BusThreads.system.Admits (m.nodes n) moves) :
    (system D).Reachable
      ⟨Function.update m.nodes n (BusThreads.system.exec (m.nodes n) moves)⟩ := by
  induction moves generalizing m with
  | nil =>
      change (system D).Reachable ⟨Function.update m.nodes n (m.nodes n)⟩
      rw [Function.update_eq_self]
      exact h
  | cons l rest ih =>
      obtain ⟨i, env, rfl⟩ := hsteps l List.mem_cons_self
      have hnext : (system D).Reachable (m.step ⟨n, .step i env⟩) :=
        h.step ⟨hadmits.1, fun source data hmove => (by cases hmove)⟩
      have hnode : (m.step ⟨n, .step i env⟩).nodes n =
          BusThreads.system.next (m.nodes n) (.step i env) := Function.update_self _ _ _
      have hrest := ih hnext (fun l hl => hsteps l (List.mem_cons_of_mem _ hl))
        (hnode ▸ hadmits.2)
      rw [hnode] at hrest
      change (system D).Reachable ⟨Function.update (Function.update m.nodes n _) n _⟩ at hrest
      rwa [Function.update_idem] at hrest

/-- One node has executed one more call. -/
theorem Follows.update {w : World ι} (h : m.Follows w) (l : World.Label ι) {t : BusThreads}
    (hshared : t.shared = ((w.nodes l.node).exec l.env l.call).1)
    (heffects : Threads.effects Action.run t.log =
      Threads.effects Action.run (m.nodes l.node).log ++
        ((w.nodes l.node).exec l.env l.call).2)
    (hidle : ∀ i a, ¬ t.Waiting i a) :
    Follows ⟨Function.update m.nodes l.node t⟩ (w.step l) := by
  generalize hnodes : Function.update m.nodes l.node t = nodes
  have hnode : ∀ n, (n = l.node ∧ nodes n = t) ∨ (n ≠ l.node ∧ nodes n = m.nodes n) := by
    intro n
    by_cases hn : n = l.node
    · subst hn hnodes
      exact Or.inl ⟨rfl, Function.update_self _ _ _⟩
    · subst hnodes
      exact Or.inr ⟨hn, Function.update_of_ne hn _ _⟩
  constructor
  · intro n
    change (nodes n).shared = _
    obtain ⟨rfl, heq⟩ | ⟨hn, heq⟩ := hnode n
    · rw [heq, hshared, World.step_node_self]
    · rw [heq, World.step_node_ne l hn, h.shared]
  · intro n
    change Threads.effects Action.run (nodes n).log = _
    rw [World.step_log]
    obtain ⟨rfl, heq⟩ | ⟨hn, heq⟩ := hnode n
    · rw [heq, heffects, h.effects,
        List.filter_cons_of_pos (p := fun e : LogEntry ι => decide (e.node = l.node))
          (decide_eq_true rfl), List.reverse_cons, List.flatMap_append, List.flatMap_singleton]
    · rw [heq, List.filter_cons_of_neg, h.effects]
      exact fun hsame => hn (of_decide_eq_true hsame).symm
  · intro n
    change ∀ i a, ¬ (nodes n).Waiting i a
    obtain ⟨rfl, heq⟩ | ⟨hn, heq⟩ := hnode n
    · rw [heq]
      exact hidle
    · rw [heq]
      exact h.idle n

/-- A call of a node in a world is a call that no other thread of the node interrupts. -/
theorem follows_step {w : World ι} (hm : (system D).Reachable m) (h : m.Follows w)
    {l : World.Label ι} (henabled : (World.system D).enabled w l) :
    ∃ m', (system D).Reachable m' ∧ m'.Follows (w.step l) := by
  let begun : Mesh ι := m.step ⟨l.node, .start [Action.ofCall l.call]⟩
  have hbegun : (system D).Reachable begun := by
    refine hm.step ⟨⟨l.call, rfl⟩, fun source data hmove => h.arrives (henabled source data ?_)⟩
    have hcall := List.singleton_inj.mp (Threads.Label.start.inj hmove)
    generalize l.call = call at hcall
    cases call with
    | received source' data' =>
        obtain ⟨rfl, rfl⟩ := Action.receive.inj hcall
        rfl
    | _ => cases hcall
  have hnode : begun.nodes l.node =
      { m.nodes l.node with
        calls := (m.nodes l.node).calls ++ [[Action.ofCall l.call]] } :=
    Function.update_self _ _ _
  have hcall : (begun.nodes l.node).calls[(m.nodes l.node).calls.length]? =
      some [Action.ofCall l.call] := by
    rw [hnode]
    exact List.getElem?_concat_length
  obtain ⟨count, hadmits, t, hexec, hshared, hcalls, heffects⟩ :=
    BusThreads.call_steps l.env l.call hcall
  have hreach :=
    reachable_exec_node hbegun (fun l hl => ⟨_, _, List.eq_of_mem_replicate hl⟩) hadmits
  have hnodes : Function.update begun.nodes l.node t = Function.update m.nodes l.node t :=
    Function.update_idem _ _ _
  rw [hexec, hnodes] at hreach
  rw [hnode] at hshared hcalls heffects
  rw [h.shared] at hshared heffects
  exact ⟨_, hreach, h.update l hshared heffects (Threads.idle_of_returned (h.idle l.node) hcalls)⟩

/-- Every run of a world is a run of the threads of its nodes. -/
theorem exists_follows {w : World ι} (h : (World.system D).Reachable w) :
    ∃ m, (system D).Reachable m ∧ m.Follows w := by
  induction h with
  | @init w hinit =>
      refine ⟨⟨fun n => BusThreads.idle (World.initialBus D n)⟩, .init fun _ => rfl, ?_, ?_, ?_⟩
      · intro n
        rw [hinit.1]
        rfl
      · intro n
        rw [hinit.2]
        rfl
      · rintro n i a ⟨call, hcall, _⟩
        cases hcall
  | step _ henabled ih =>
      obtain ⟨m, hm, hfollows⟩ := ih
      exact follows_step hm hfollows henabled

end Mesh

/-! ### Two nodes -/

namespace Party

def other : Party → Party
  | sender => receiver
  | receiver => sender

/-- One of the parties begins a call, or goes on with one. -/
structure Turn where
  party : Party
  move : BusThreads.Move

def Turn.label (t : Turn) : Mesh.Label Party := ⟨t.party, t.move.label⟩

def begins (p : Party) (call : MessageBus.Call) : Turn := ⟨p, .begin call⟩

/-- Some actions of one call in a row. -/
def goes (p : Party) (n i : Nat) : List Turn := List.replicate n ⟨p, .go i (BusThreads.clock 0)⟩

/-- The parties before their first calls. -/
def meshStart : Mesh Party := ⟨fun p => BusThreads.idle (World.initialBus deployment p)⟩

def meshAfter (turns : List Turn) : Mesh Party :=
  turns.foldl (fun m t => m.step t.label) meshStart

/-- A test for a turn. A frame comes from the other party, to the datagram endpoint. -/
def admits (m : Mesh Party) : Turn → Bool
  | ⟨p, .begin (.received source data)⟩ =>
      decide (source = endpoint p.other) && decide (m.Sent p.other (endpoint p) data)
  | ⟨_, .begin (.publish topic payload qos _)⟩ =>
      decide (Action.FitsHeader topic payload qos)
  | ⟨_, .begin _⟩ => true
  | ⟨p, .go i _⟩ =>
      match (m.nodes p).calls[i]? with
      | some (_ :: _) => true
      | _ => false

def runs : Mesh Party → List Turn → Bool
  | _, [] => true
  | m, t :: rest => admits m t && runs (m.step t.label) rest

theorem owner_endpoint (p : Party) : deployment.owner (endpoint p) = some p := by
  cases p <;> rfl

theorem enabled_of_admits {m : Mesh Party} {t : Turn} (h : admits m t = true) :
    (Mesh.fitting deployment).enabled m t.label := by
  obtain ⟨p, call | ⟨i, env⟩⟩ := t
  · refine ⟨⟨⟨call, rfl⟩, fun source data hmove => ?_⟩, fun a ha => ?_⟩
    · cases call with
      | received source' data' =>
          obtain ⟨rfl, rfl⟩ :=
            Action.receive.inj (List.singleton_inj.mp (Threads.Label.start.inj hmove))
          obtain ⟨hsource, hsent⟩ := Bool.and_eq_true_iff.mp h
          refine ⟨p.other, endpoint p, of_decide_eq_true hsent, owner_endpoint p, Or.inl ?_⟩
          rw [of_decide_eq_true hsource]
          exact owner_endpoint p.other
      | _ => cases List.singleton_inj.mp (Threads.Label.start.inj hmove)
    · rw [List.mem_singleton.mp ha]
      cases call with
      | publish topic payload qos flags =>
          have hfits : Action.FitsHeader topic payload qos := of_decide_eq_true h
          exact hfits
      | _ => exact trivial
  · refine ⟨⟨?_, fun source data hmove => (by cases hmove)⟩, trivial⟩
    simp only [admits] at h
    split at h
    · rename_i a rest hcall
      exact ⟨a, rest, hcall⟩
    · exact absurd h Bool.false_ne_true

theorem reachable_of_runs {m : Mesh Party} {turns : List Turn}
    (h : (Mesh.fitting deployment).Reachable m) (hruns : runs m turns = true) :
    (Mesh.fitting deployment).Reachable (turns.foldl (fun m t => m.step t.label) m) := by
  induction turns generalizing m with
  | nil => exact h
  | cons t rest ih =>
      obtain ⟨hadmits, hrest⟩ := Bool.and_eq_true_iff.mp hruns
      have hnext : (Mesh.fitting deployment).Reachable (m.step t.label) :=
        h.step (enabled_of_admits hadmits)
      exact ih hnext hrest

theorem meshAfter_reachable {turns : List Turn} (hruns : runs meshStart turns = true) :
    (Mesh.fitting deployment).Reachable (meshAfter turns) :=
  reachable_of_runs (.init fun _ => rfl) hruns

end Party

end EmbedMq
