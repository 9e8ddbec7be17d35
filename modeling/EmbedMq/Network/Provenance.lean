import EmbedMq.Bus.Pending
import EmbedMq.Codec.RoundTrip
import EmbedMq.Network.Basic

/-!
# Where a received frame comes from

Nodes are honest and the network does not change frames, so whatever a node
receives was sent by a call of some node, and that call had a reason to send it.
A sequence number of a node stands for one frame: first transmissions draw fresh
numbers, and repetitions repeat the bytes. An acknowledgement that arrives at a
node answers a frame that this very node has sent.

One thing spoils this picture. A BestEffort message that does not fit the header
is sent without a header, and the bytes of its topic may then be taken for any
frame. `Fits` excludes such a call.
-/

namespace EmbedMq.World

open MessageBus (Call Content Answer Receives Prompts)
open MessageCodec (EncodeArgs DecodeResult Encodable encode decode)

variable {ι : Type} [DecidableEq ι] {D : Deployment ι} {w : World ι}

/-- A message that goes out as slices fits the header. -/
def Fits (call : Call) : Prop :=
  ∀ topic payload qos flags, call = .publish topic payload qos flags →
    QoSLevel.reliable ≤ qos.level ∨
      (topic.length ≤ 65535 ∧ payload.length ≤ 64 * 1024 * 1024)

theorem fits_of_not_publish {call : Call}
    (h : ∀ topic payload qos flags, call ≠ .publish topic payload qos flags) : Fits call :=
  fun topic payload qos flags hcall => absurd hcall (h topic payload qos flags)

/-- The runs whose BestEffort messages fit the header. -/
def fitting (D : Deployment ι) : TransitionSystem (World ι) (Label ι) :=
  (system D).restrict fun _ l => Fits l.call

/-- A node has sent a first transmission under a number. -/
def FrameSent (w : World ι) (node : ι) (number : Nat) (dest : Endpoint) (data : Bytes) : Prop :=
  ∃ e ∈ w.log, e.node = node ∧ ∃ slices, .frame number dest slices ∈ e.effects ∧
    slices.flatten = data

theorem FrameSent.mono {node : ι} {number : Nat} {dest : Endpoint} {data : Bytes}
    (h : w.FrameSent node number dest data) (l : Label ι) :
    (w.step l).FrameSent node number dest data := by
  obtain ⟨e, hmem, hrest⟩ := h
  exact ⟨e, List.mem_cons_of_mem _ hmem, hrest⟩

/-! ### Entries of the log -/

/-- The record of a step, with the bus that executed the call. -/
theorem mem_log_origin (hw : (system D).Reachable w) {e : LogEntry ι} (hmem : e ∈ w.log) :
    ∃ bus : MessageBus, bus.nodeId = D.nodeId e.node ∧ bus.sizeT = D.sizeT e.node ∧
      e.effects = (bus.exec e.env e.call).2 := by
  obtain ⟨post, pre, hlog⟩ := List.append_of_mem hmem
  obtain ⟨before, hbefore, _, _, heffects⟩ := entry_before hw hlog
  obtain ⟨hnode, hsize⟩ := reachable_node hbefore e.node
  exact ⟨before.nodes e.node, hnode, hsize, heffects⟩

theorem mem_log_fits (hw : (fitting D).Reachable w) {e : LogEntry ι} (hmem : e ∈ w.log) :
    Fits e.call := by
  obtain ⟨post, pre, hlog⟩ := List.append_of_mem hmem
  obtain ⟨_, _, _, _, hfits, _⟩ := entry_origin hw hlog
  exact hfits

/-- A frame that was received had been sent. -/
theorem mem_log_arrives (hw : (system D).Reachable w) {e : LogEntry ι} (hmem : e ∈ w.log)
    {source : Endpoint} {data : Bytes} (hcall : e.call = .received source data) :
    w.Arrives D e.node source data := by
  obtain ⟨post, pre, hlog⟩ := List.append_of_mem hmem
  obtain ⟨before, _, hbefore, henabled, _⟩ := entry_before hw hlog
  obtain ⟨sender, dest, ⟨e', hmem', hrest⟩, howner, hsource⟩ := henabled source data hcall
  refine ⟨sender, dest, ⟨e', ?_, hrest⟩, howner, hsource⟩
  rw [hlog]
  rw [hbefore] at hmem'
  exact List.mem_append_right _ (List.mem_cons_of_mem _ hmem')

/-! ### Numbers -/

theorem frame_lt_counter (hw : (system D).Reachable w) {node : ι} {number : Nat} {dest : Endpoint}
    {data : Bytes} (h : w.FrameSent node number dest data) :
    number < (w.nodes node).seqCounter := by
  induction hw with
  | init hinit =>
      obtain ⟨e, hmem, _⟩ := h
      exact absurd hmem (not_mem_log_of_init hinit)
  | @step s l _ _ ih =>
      change number < ((s.step l).nodes node).seqCounter
      obtain ⟨e, hmem, rfl, slices, hframe, hdata⟩ := h
      obtain rfl | hmem := List.mem_cons.mp hmem
      · rw [step_node_self]
        exact ((MessageBus.exec_emission l.env (s.nodes l.node) l.call).range hframe).2
      · have hold := ih ⟨e, hmem, rfl, slices, hframe, hdata⟩
        obtain ⟨hnode, hafter⟩ | ⟨_, hafter⟩ := step_node_cases (w := s) l e.node
        · rw [hafter, ← hnode]
          exact Nat.lt_of_lt_of_le hold
            (hnode ▸ (MessageBus.exec_kept l.env (s.nodes l.node) l.call).seqCounter)
        · rw [hafter]
          exact hold

/-- A number is drawn once: first transmissions under one number come from one call. -/
theorem frame_same_entry (hw : (system D).Reachable w) {e₁ e₂ : LogEntry ι} (hmem₁ : e₁ ∈ w.log)
    (hmem₂ : e₂ ∈ w.log) (hnode : e₁.node = e₂.node) {number : Nat} {d₁ d₂ : Endpoint}
    {s₁ s₂ : List Bytes} (h₁ : .frame number d₁ s₁ ∈ e₁.effects)
    (h₂ : .frame number d₂ s₂ ∈ e₂.effects) : e₁ = e₂ := by
  induction hw with
  | init hinit =>
      exact absurd hmem₁ (not_mem_log_of_init hinit)
  | @step s l hreach _ ih =>
      -- a frame of the step itself has a number that no earlier frame of the node has
      have hfresh : ∀ {e : LogEntry ι} {dest : Endpoint} {slices : List Bytes}, e ∈ s.log →
          e.node = l.node → .frame number dest slices ∈ e.effects →
          number < (s.nodes l.node).seqCounter := by
        intro e dest slices hmem he hframe
        exact frame_lt_counter hreach ⟨e, hmem, he, slices, hframe, rfl⟩
      have hemission := MessageBus.exec_emission l.env (s.nodes l.node) l.call
      obtain rfl | hold₁ := List.mem_cons.mp hmem₁
      · obtain rfl | hold₂ := List.mem_cons.mp hmem₂
        · rfl
        · exact absurd (hfresh hold₂ hnode.symm h₂) (Nat.not_lt.mpr (hemission.range h₁).1)
      · obtain rfl | hold₂ := List.mem_cons.mp hmem₂
        · exact absurd (hfresh hold₁ hnode h₁) (Nat.not_lt.mpr (hemission.range h₂).1)
        · exact ih hold₁ hold₂

/-- Two first transmissions of a node under one wire number carry the same bytes, and
go to the same destination unless they are requests. -/
theorem frame_unique (hw : (system D).Reachable w) (hnumbers : w.NumbersLeft)
    {e₁ e₂ : LogEntry ι} (hmem₁ : e₁ ∈ w.log) (hmem₂ : e₂ ∈ w.log) (hnode : e₁.node = e₂.node)
    {n₁ n₂ : Nat} {d₁ d₂ : Endpoint} {s₁ s₂ : List Bytes}
    (h₁ : .frame n₁ d₁ s₁ ∈ e₁.effects) (h₂ : .frame n₂ d₂ s₂ ∈ e₂.effects)
    (hnumber : UInt32.ofNat n₁ = UInt32.ofNat n₂) :
    e₁ = e₂ ∧ n₁ = n₂ ∧ s₁.flatten = s₂.flatten ∧
      (d₁ = d₂ ∨ e₁.call = .tick ∨ ∃ s p q c t, e₁.call = .sendRequest s p q c t) := by
  have hlt₁ : n₁ < 2 ^ 32 :=
    Nat.lt_of_lt_of_le (frame_lt_counter hw ⟨e₁, hmem₁, rfl, s₁, h₁, rfl⟩) (hnumbers _)
  have hlt₂ : n₂ < 2 ^ 32 :=
    Nat.lt_of_lt_of_le (frame_lt_counter hw ⟨e₂, hmem₂, rfl, s₂, h₂, rfl⟩) (hnumbers _)
  obtain rfl := MessageBus.wireNumber_inj hlt₁ hlt₂ hnumber
  obtain rfl := frame_same_entry hw hmem₁ hmem₂ hnode h₁ h₂
  obtain ⟨bus, _, _, heffects⟩ := mem_log_origin hw hmem₁
  rw [heffects] at h₁ h₂
  obtain ⟨hflatten, hdest⟩ := (MessageBus.exec_emission e₁.env bus e₁.call).same h₁ h₂
  exact ⟨rfl, rfl, hflatten, hdest⟩

/-! ### Repetitions -/

/-- A waiting frame has been sent, with these bytes and to this destination, under the
number that it is stored for. -/
theorem pending_sent (hw : (system D).Reachable w) {n : ι} {q : UInt32} {pm : PendingMsg}
    (h : (w.nodes n).qosEngine.pending.lookup q = some pm) :
    pm.seqId = q ∧ ∃ number, q = UInt32.ofNat number ∧ w.FrameSent n number pm.resend pm.data := by
  induction hw generalizing pm with
  | init hinit =>
      rw [hinit.1] at h
      exact absurd h (by simp [initialBus])
  | @step s l hreach _ ih =>
      change ((s.step l).nodes n).qosEngine.pending.lookup q = some pm at h
      obtain ⟨rfl, hafter⟩ | ⟨_, hafter⟩ := step_node_cases (w := s) l n
      · rw [hafter] at h
        have hfate := MessageBus.exec_pending l.env (s.nodes l.node) l.call q
        rw [h] at hfate
        generalize hbefore : (s.nodes l.node).qosEngine.pending.lookup q = before at hfate
        cases hfate with
        | kept =>
            obtain ⟨hseq, number, hq, hsent⟩ := ih hbefore
            exact ⟨hseq, number, hq, hsent.mono l⟩
        | registered hregister =>
            obtain ⟨number, slices, hq, hframe, hdata, _⟩ :=
              (MessageBus.exec_emission l.env (s.nodes l.node) l.call).registered hregister
            exact ⟨rfl, number, hq, _, List.mem_cons_self, rfl, slices, hframe, hdata⟩
        | retried _ =>
            obtain ⟨hseq, number, hq, hsent⟩ := ih hbefore
            exact ⟨hseq, number, hq, hsent.mono l⟩
      · rw [hafter] at h
        obtain ⟨hseq, number, hq, hsent⟩ := ih h
        exact ⟨hseq, number, hq, hsent.mono l⟩

/-- The PUBREL that a node repeats, and the PUBREC that made it do so. -/
def ReleaseSent (D : Deployment ι) (w : World ι) (n : ι) (q : UInt32) (dest : Endpoint)
    (data : Bytes) : Prop :=
  (∃ (b : MessageBus) (stamp : UInt64), b.nodeId = D.nodeId n ∧
    data = encode (b.controlArgs .pubrel q .exactlyOnce) stamp) ∧
  ∃ e ∈ w.log, e.node = n ∧ Receives (D.sizeT n) e.call dest .pubrec q

theorem ReleaseSent.mono {n : ι} {q : UInt32} {dest : Endpoint} {data : Bytes}
    (h : w.ReleaseSent D n q dest data) (l : Label ι) :
    (w.step l).ReleaseSent D n q dest data := by
  obtain ⟨hdata, e, hmem, hrest⟩ := h
  exact ⟨hdata, e, List.mem_cons_of_mem _ hmem, hrest⟩

theorem pendingRel_sent (hw : (system D).Reachable w) {n : ι} {q : UInt32} {pm : PendingMsg}
    (h : (w.nodes n).qosEngine.pendingRel.lookup q = some pm) :
    pm.seqId = q ∧ w.ReleaseSent D n q pm.resend pm.data := by
  induction hw generalizing pm with
  | init hinit =>
      rw [hinit.1] at h
      exact absurd h (by simp [initialBus])
  | @step s l hreach _ ih =>
      change ((s.step l).nodes n).qosEngine.pendingRel.lookup q = some pm at h
      obtain ⟨rfl, hafter⟩ | ⟨_, hafter⟩ := step_node_cases (w := s) l n
      · rw [hafter] at h
        obtain ⟨hnode, hsize⟩ := reachable_node hreach l.node
        have hfate := MessageBus.exec_pendingRel l.env (s.nodes l.node) l.call q
        rw [h] at hfate
        generalize hbefore : (s.nodes l.node).qosEngine.pendingRel.lookup q = before at hfate
        cases hfate with
        | kept =>
            obtain ⟨hseq, hsent⟩ := ih hbefore
            exact ⟨hseq, hsent.mono l⟩
        | entered hreceives hdata =>
            rw [hsize] at hreceives
            exact ⟨rfl, ⟨_, _, hnode, hdata⟩, _, List.mem_cons_self, rfl, hreceives⟩
        | retried =>
            obtain ⟨hseq, hsent⟩ := ih hbefore
            exact ⟨hseq, hsent.mono l⟩
      · rw [hafter] at h
        obtain ⟨hseq, hsent⟩ := ih h
        exact ⟨hseq, hsent.mono l⟩

/-! ### Everything a node sends -/

/-- What a call hands to the transport: a numbered frame, now or again, or an answer to
the frame it was called with, or a waiting PUBREL. -/
theorem packet_cases (hw : (system D).Reachable w) (l : Label ι) {effect : Effect}
    (hmem : effect ∈ ((w.nodes l.node).exec l.env l.call).2) {dest : Endpoint} {data : Bytes}
    (hpacket : effect.packet = some (dest, data)) :
    (∃ number, (w.step l).FrameSent l.node number dest data) ∨
    (∃ input, l.call = .received dest input ∧ (decode (D.sizeT l.node) input).valid = true ∧
      Answer (D.nodeId l.node) (decode (D.sizeT l.node) input) data) ∨
    ∃ q pm, (w.nodes l.node).qosEngine.pendingRel.lookup q = some pm ∧ pm.resend = dest ∧
      pm.data = data := by
  have horigin := MessageBus.exec_origin l.env (w.nodes l.node) l.call _ hmem
  cases effect with
  | frame number d slices =>
      obtain ⟨rfl, rfl⟩ := Prod.mk.inj (Option.some.inj hpacket)
      exact Or.inl ⟨number, _, List.mem_cons_self, rfl, slices, hmem, rfl⟩
  | answer d out =>
      obtain ⟨rfl, rfl⟩ := Prod.mk.inj (Option.some.inj hpacket)
      obtain ⟨input, hcall, hvalid, hanswer⟩ := horigin
      obtain ⟨hnode, hsize⟩ := reachable_node hw l.node
      rw [hsize] at hvalid hanswer
      rw [hnode] at hanswer
      exact Or.inr (Or.inl ⟨input, hcall, hvalid, hanswer⟩)
  | resend r =>
      obtain ⟨q, pm, hlookup, rfl⟩ := horigin
      obtain ⟨rfl, rfl⟩ := Prod.mk.inj (Option.some.inj hpacket)
      obtain ⟨_, number, _, hsent⟩ := pending_sent hw hlookup
      exact Or.inl ⟨number, hsent.mono l⟩
  | resendRel r =>
      obtain ⟨q, pm, hlookup, rfl⟩ := horigin
      obtain ⟨rfl, rfl⟩ := Prod.mk.inj (Option.some.inj hpacket)
      exact Or.inr (Or.inr ⟨q, pm, hlookup, rfl, rfl⟩)
  | _ => cases hpacket

theorem sent_cases (hw : (system D).Reachable w) {n : ι} {dest : Endpoint} {data : Bytes}
    (h : w.Sent n dest data) :
    (∃ number, w.FrameSent n number dest data) ∨
    (∃ e ∈ w.log, e.node = n ∧ ∃ input, e.call = .received dest input ∧
      (decode (D.sizeT n) input).valid = true ∧
      Answer (D.nodeId n) (decode (D.sizeT n) input) data) ∨
    ∃ q, w.ReleaseSent D n q dest data := by
  induction hw with
  | init hinit =>
      obtain ⟨e, hmem, _⟩ := h
      exact absurd hmem (not_mem_log_of_init hinit)
  | @step s l hreach _ ih =>
      obtain ⟨e, hmem, rfl, effect, heffect, hpacket⟩ := h
      obtain rfl | hold := List.mem_cons.mp hmem
      · obtain hframe | ⟨input, hcall, hvalid, hanswer⟩ | ⟨q, pm, hlookup, rfl, rfl⟩ :=
          packet_cases hreach l heffect hpacket
        · exact Or.inl hframe
        · exact Or.inr (Or.inl ⟨_, List.mem_cons_self, rfl, input, hcall, hvalid, hanswer⟩)
        · exact Or.inr (Or.inr ⟨q, (pendingRel_sent hreach hlookup).2.mono l⟩)
      · obtain ⟨number, hframe⟩ | ⟨e', hmem', hanswer⟩ | ⟨q, hrelease⟩ :=
          ih ⟨e, hold, rfl, effect, heffect, hpacket⟩
        · exact Or.inl ⟨number, hframe.mono l⟩
        · exact Or.inr (Or.inl ⟨e', List.mem_cons_of_mem _ hmem', hanswer⟩)
        · exact Or.inr (Or.inr ⟨q, hrelease.mono l⟩)

/-! ### Decoding what was sent -/

/-- A control frame has the type and the number it was built with. -/
theorem decode_control (b : MessageBus) (type : MessageType) (q : UInt32) (qos : QoSProfile)
    (stamp : UInt64) (sz : SizeT) :
    MessageType.ofByte (decode sz (encode (b.controlArgs type q qos) stamp)).header.msgType =
        type ∧
      (decode sz (encode (b.controlArgs type q qos) stamp)).header.sequenceId = q := by
  have henc : Encodable (b.controlArgs type q qos) := ⟨Nat.zero_le _, Nat.zero_le _⟩
  rw [MessageCodec.decode_encode henc]
  exact ⟨MessageCodec.encodedHeader_type _ stamp, rfl⟩

/-- The arguments of a data frame that a node has sent under a number. -/
structure DataFrame (D : Deployment ι) (n : ι) (number : Nat) (call : Call) (a : EncodeArgs) :
    Prop where
  source : a.sourceId = D.nodeId n
  number : a.sequenceId = UInt32.ofNat number
  type : a.type = .publish ∨ a.type = .request ∨ a.type = .reply
  publish : a.type = .publish → call = .publish a.topic a.payload a.qos a.flags
  request : a.type = .request → call = .tick ∨ ∃ s p q c t, call = .sendRequest s p q c t
  reply : a.type = .reply → ∃ source data, call = .received source data

theorem frame_content (hw : (fitting D).Reachable w) {e : LogEntry ι} (hmem : e ∈ w.log)
    {number : Nat} {dest : Endpoint} {slices : List Bytes}
    (hframe : .frame number dest slices ∈ e.effects) :
    ∃ a stamp, slices.flatten = encode a stamp ∧ DataFrame D e.node number e.call a := by
  obtain ⟨bus, hnode, _, heffects⟩ := mem_log_origin hw.of_restrict hmem
  have hfits := mem_log_fits hw hmem
  rw [heffects] at hframe
  have hcontent := (MessageBus.exec_emission e.env bus e.call).content hframe
  rw [hnode] at hcontent
  generalize hcall : e.call = call at hcontent hfits ⊢
  generalize hdata : slices.flatten = data at hcontent ⊢
  cases hcontent with
  | publish hb stamp =>
      exact ⟨_, stamp, rfl, hb, rfl, Or.inl rfl, fun _ => rfl, fun h => (by cases h),
        fun h => (by cases h)⟩
  | raw hlevel hlong =>
      obtain hreliable | ⟨htopic, hpayload⟩ := hfits _ _ _ _ rfl
      · exact absurd hreliable hlevel
      · omega
  | reply hb stamp =>
      exact ⟨_, stamp, rfl, hb, rfl, Or.inr (Or.inr rfl), fun h => (by cases h),
        fun h => (by cases h), fun _ => ⟨_, _, rfl⟩⟩
  | request hb stamp hcall =>
      exact ⟨_, stamp, rfl, hb, rfl, Or.inr (Or.inl rfl), fun h => (by cases h),
        fun _ => hcall, fun h => (by cases h)⟩

/-- A numbered frame is no acknowledgement. -/
theorem frameSent_type (hw : (fitting D).Reachable w) {n : ι} {number : Nat} {dest : Endpoint}
    {data : Bytes} (h : w.FrameSent n number dest data) {sz : SizeT}
    (hvalid : (decode sz data).valid = true) :
    MessageBus.isAcknowledgement (MessageType.ofByte (decode sz data).header.msgType) = false := by
  obtain ⟨e, hmem, _, slices, hframe, rfl⟩ := h
  obtain ⟨a, stamp, hdata, hargs⟩ := frame_content hw hmem hframe
  rw [hdata] at hvalid ⊢
  rw [MessageCodec.decode_encode (MessageCodec.encodable_of_valid hvalid),
    MessageCodec.encodedHeader_type]
  obtain h | h | h := hargs.type
  all_goals
    rw [h]
    rfl

/-! ### Acknowledgements -/

/-- A node has received, from this endpoint, a frame that makes it send an
acknowledgement of this type and number. -/
def Prompted (D : Deployment ι) (w : World ι) (n : ι) (source : Endpoint) (type : MessageType)
    (q : UInt32) : Prop :=
  ∃ e ∈ w.log, e.node = n ∧ ∃ data, e.call = .received source data ∧
    (decode (D.sizeT n) data).valid = true ∧ Prompts type (decode (D.sizeT n) data) ∧
    (decode (D.sizeT n) data).header.sequenceId = q

/-- A node sends an acknowledgement to the endpoint of the frame that asked for it. -/
theorem sent_control (hw : (fitting D).Reachable w) {n : ι} {dest : Endpoint} {data : Bytes}
    (hsent : w.Sent n dest data) {sz : SizeT} (hvalid : (decode sz data).valid = true)
    {type : MessageType} (htype : MessageType.ofByte (decode sz data).header.msgType = type)
    (hack : MessageBus.isAcknowledgement type = true) {q : UInt32}
    (hq : (decode sz data).header.sequenceId = q) : w.Prompted D n dest type q := by
  obtain ⟨number, hframe⟩ | ⟨e, hmem, rfl, input, hcall, hinput, hanswer⟩ |
    ⟨q', ⟨b, stamp, _, rfl⟩, e, hmem, rfl, input, hcall, hinput, hpubrec, hseq⟩ :=
    sent_cases hw.of_restrict hsent
  · have hdata := frameSent_type hw hframe hvalid
    rw [htype, hack] at hdata
    cases hdata
  · cases hanswer with
    | ack _ stamp hprompt =>
        obtain ⟨hdecoded, hnumber⟩ := decode_control _ _ _ _ stamp sz
        obtain rfl := hdecoded.symm.trans htype
        exact ⟨e, hmem, rfl, input, hcall, hinput, hprompt, hnumber.symm.trans hq⟩
    | pubrec _ stamp hpublish hlevel =>
        obtain ⟨hdecoded, hnumber⟩ := decode_control _ _ _ _ stamp sz
        obtain rfl := hdecoded.symm.trans htype
        exact ⟨e, hmem, rfl, input, hcall, hinput, ⟨hpublish, hlevel⟩, hnumber.symm.trans hq⟩
    | pubrel _ stamp hprompt =>
        obtain ⟨hdecoded, hnumber⟩ := decode_control _ _ _ _ stamp sz
        obtain rfl := hdecoded.symm.trans htype
        exact ⟨e, hmem, rfl, input, hcall, hinput, hprompt, hnumber.symm.trans hq⟩
    | pubcomp _ stamp hprompt =>
        obtain ⟨hdecoded, hnumber⟩ := decode_control _ _ _ _ stamp sz
        obtain rfl := hdecoded.symm.trans htype
        exact ⟨e, hmem, rfl, input, hcall, hinput, hprompt, hnumber.symm.trans hq⟩
  · obtain ⟨hdecoded, hnumber⟩ := decode_control b .pubrel q' .exactlyOnce stamp sz
    obtain rfl := hdecoded.symm.trans htype
    obtain rfl := hnumber.symm.trans hq
    exact ⟨e, hmem, rfl, input, hcall, hinput, hpubrec, hseq⟩

/-! ### Where a received frame comes from -/

section Received

variable (hw : (fitting D).Reachable w) {e : LogEntry ι} (hmem : e ∈ w.log) {source : Endpoint}
  {q : UInt32}
include hw hmem

/-- A PUBLISH, REQUEST or REPLY that was received had been sent under its number by a
node, to this one. -/
theorem received_data {data : Bytes} (hcall : e.call = .received source data)
    (hvalid : (decode (D.sizeT e.node) data).valid = true)
    (htype : MessageBus.isAcknowledgement
      (MessageType.ofByte (decode (D.sizeT e.node) data).header.msgType) = false) :
    ∃ origin ∈ w.log, ∃ number dest slices a stamp,
      .frame number dest slices ∈ origin.effects ∧ slices.flatten = data ∧
      data = encode a stamp ∧ Encodable a ∧ DataFrame D origin.node number origin.call a ∧
      D.owner dest = some e.node ∧
      (D.owner source = some origin.node ∨ D.owner source = none) := by
  obtain ⟨sender, dest, hsent, howner, hsource⟩ := mem_log_arrives hw.of_restrict hmem hcall
  obtain ⟨number, origin, horigin, rfl, slices, hframe, rfl⟩ | ⟨_, _, _, _, _, _, hanswer⟩ |
    ⟨q, ⟨b, stamp, _, rfl⟩, _⟩ := sent_cases hw.of_restrict hsent
  · obtain ⟨a, stamp, hdata, hframeArgs⟩ := frame_content hw horigin hframe
    rw [hdata] at hvalid
    exact ⟨origin, horigin, number, dest, slices, a, stamp, hframe, rfl, hdata,
      MessageCodec.encodable_of_valid hvalid, hframeArgs, howner, hsource⟩
  · cases hanswer
    all_goals
      rw [(decode_control _ _ _ _ _ _).1] at htype
      cases htype
  · rw [(decode_control _ _ _ _ _ _).1] at htype
    cases htype

end Received

end EmbedMq.World

/-! ### Messages without a header -/

/-- A peer with a wildcard subscription is sent the bytes of an over-long topic. -/
theorem EmbedMq.Party.oversized_sent {w : World Party} {topic : Bytes}
    (hpeer : (w.nodes receiver).peers.lookup 1 =
      some (info sender (streamEndpoint sender) [[TopicRouter.hash]]))
    (hlong : 65535 < topic.length) :
    (w.step (call receiver 0 (.publish topic [] {} 0))).Sent receiver (streamEndpoint sender)
      topic := by
  have htarget : streamEndpoint sender ∈
      (w.nodes receiver).targets (call receiver 0 (.publish topic [] {} 0)).env
        fun sub => TopicRouter.matchWildcard sub topic || decide (sub = topic) := by
    refine (MessageBus.mem_targets _ _).mpr ⟨1, _, hpeer, ?_, by simp [info], rfl⟩
    have hmatch := TopicRouter.matchWildcard_hash topic
    simp [info, hmatch]
  obtain ⟨n, slices, hframe, hflatten⟩ :=
    @MessageBus.publish_oversized _ _ topic [] {} 0 (by decide) (Or.inl hlong) _ htarget
  refine ⟨_, List.mem_cons_self, rfl, _, hframe, ?_⟩
  rw [Effect.packet, hflatten, List.append_nil]
