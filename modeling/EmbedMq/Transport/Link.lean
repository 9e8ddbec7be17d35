import EmbedMq.Transport.Basic

/-!
# Messages over one link

A sender and a receiver with the transports in their default configuration. Every
message that is reported as sent should be handed to the receiver's callback as it is.
The limits of the two sides do not agree: a datagram may be larger than the receive
buffer, and a stream carries messages that the receiving loop does not accept; at
one of these the connection is closed. Whether the sender gets to write all of it, and
what it writes until it notices, depends on the operating system.
-/

namespace EmbedMq

inductive TransportKind where
  | udp
  | tcp
  | shm
  deriving DecidableEq

namespace Link

/-- What else happens around a send. -/
structure Surroundings where
  /-- How many messages the consumer has taken out of the inbox since the last send. -/
  taken : Nat
  /-- The sender has noticed that the connection was closed, and connects again. -/
  noticed : Bool
  /-- The operating system takes all bytes of a message for a connection that the peer has closed,
  or closes in the meantime. -/
  accepted : Bool

end Link

/-- A link with its history. -/
structure Link where
  /-- The messages in the inbox. -/
  inbox : List Bytes := []
  /-- The bytes of the connection that the receiver has not read. -/
  stream : Bytes := []
  /-- The receiver has closed the connection. -/
  closed : Bool := false
  /-- The messages that were reported as sent, and what the callback was given. -/
  sent : List Bytes := []
  received : List Bytes := []

namespace Link

open UdpTransport (maxDatagram)
open TcpTransport (maxMessage)

/-- `recvBufferSize_` of a default configuration. -/
def recvBufferSize : Nat := 2048

def slotSize : Nat := ShmTransport.defaultSlotSize
def slotCount : Nat := ShmTransport.defaultSlotCount

def sendUdp (out : Outgoing) (link : Link) : Link :=
  let (ok, datagram) := UdpTransport.transmit out
  { link with
    sent := if ok then link.sent ++ [out.bytes] else link.sent
    received := link.received ++ (datagram.bind (UdpTransport.received recvBufferSize)).toList }

/-- The receiving loop runs until it waits or leaves. -/
def clientLoop : Nat → Link → Link
  | 0, link => link
  | fuel + 1, link =>
      match TcpTransport.readMessage link.stream with
      | .waiting => link
      | .broken => { link with closed := true, stream := [] }
      | .message data rest =>
          clientLoop fuel { link with stream := rest, received := link.received ++ [data] }

def sendTcp (env : Surroundings) (out : Outgoing) (link : Link) : Link :=
  if link.closed && !env.noticed then
    if env.accepted then { link with sent := link.sent ++ [out.bytes] } else link
  else
    -- A new connection has an empty stream.
    let stream := if link.closed then [] else link.stream
    let link := { link with closed := false, stream := stream ++ TcpTransport.transmit out }
    let link := clientLoop link.stream.length link
    if link.closed && !env.accepted then link else { link with sent := link.sent ++ [out.bytes] }

/-- The consumer takes messages out of the inbox. -/
def consume (count : Nat) (link : Link) : Link :=
  { link with
    inbox := link.inbox.drop count
    received := link.received ++
      (link.inbox.take count).filterMap (ShmTransport.received slotSize) }

def sendShm (env : Surroundings) (out : Outgoing) (link : Link) : Link :=
  let link := link.consume env.taken
  let (ok, inbox) := ShmTransport.write slotSize slotCount out.bytes link.inbox
  { link with inbox, sent := if ok then link.sent ++ [out.bytes] else link.sent }

def send (kind : TransportKind) (env : Surroundings) (out : Outgoing) (link : Link) : Link :=
  match kind with
  | .udp => link.sendUdp out
  | .tcp => link.sendTcp env out
  | .shm => link.sendShm env out

/-- The link after some messages were sent. -/
def after (kind : TransportKind) (link : Link) : List (Surroundings × Outgoing) → Link
  | [] => link
  | (env, out) :: rest => after kind (link.send kind env out) rest

/-- What was reported as sent has been given to the callback, once the inbox is empty. -/
def Whole (link : Link) : Prop :=
  (link.consume link.inbox.length).received = link.sent

/-- A message of this length is received as it is, or is not reported as sent. -/
def Carried (kind : TransportKind) (length : Nat) : Prop :=
  match kind with
  | .udp => length ≤ recvBufferSize ∨ maxDatagram < length
  | .tcp => length ≤ maxMessage
  | .shm => True

instance (kind : TransportKind) (length : Nat) : Decidable (Carried kind length) := by
  cases kind with
  | udp => exact inferInstanceAs (Decidable (_ ∨ _))
  | tcp => exact inferInstanceAs (Decidable (_ ≤ _))
  | shm => exact inferInstanceAs (Decidable True)

/-- The lengths of frames. -/
def Sendable (out : Outgoing) : Prop := 0 < out.bytes.length ∧ out.bytes.length < 2 ^ 31

/-! ### One message -/

section Send

variable {link : Link} {env : Surroundings} {out : Outgoing} (hout : Sendable out)
include hout

theorem sendUdp_eq :
    link.sendUdp out =
      if out.bytes.length ≤ maxDatagram then
        { link with
          sent := link.sent ++ [out.bytes]
          received := link.received ++ [out.bytes.take recvBufferSize] }
      else link := by
  rw [sendUdp, UdpTransport.transmit_eq hout.2]
  by_cases hfits : out.bytes.length ≤ maxDatagram
  · have hne : (out.bytes.take recvBufferSize).isEmpty = false := by
      have hlength : 0 < (out.bytes.take recvBufferSize).length := by
        rw [List.length_take]
        exact Nat.lt_min.mpr ⟨by decide, hout.1⟩
      rw [Bool.eq_false_iff, Ne, List.isEmpty_iff]
      exact List.ne_nil_of_length_pos hlength
    have hsome : UdpTransport.received recvBufferSize out.bytes =
        some (out.bytes.take recvBufferSize) := by
      simp only [UdpTransport.received, hne, Bool.false_eq_true, if_false]
    rw [if_pos hfits, if_pos hfits]
    simp only [if_true, Option.bind_some, hsome, Option.toList_some]
  · rw [if_neg hfits, if_neg hfits]
    simp

/-- The loop reads one message if its length is accepted, and else leaves. -/
theorem clientLoop_transmit (hstream : link.stream = TcpTransport.transmit out) :
    clientLoop link.stream.length link =
      if out.bytes.length ≤ maxMessage then
        { link with stream := [], received := link.received ++ [out.bytes] }
      else { link with closed := true, stream := [] } := by
  have hpos := hout.1
  have hread := TcpTransport.readMessage_send (Nat.lt_trans hout.2 (by decide)) []
  rw [List.append_nil] at hread
  obtain ⟨fuel, hfuel⟩ : ∃ fuel, (TcpTransport.send out.bytes).length = fuel + 2 :=
    ⟨out.bytes.length + 2, by
      rw [TcpTransport.send, List.length_append]
      change 4 + out.bytes.length = _
      omega⟩
  simp only [hstream, TcpTransport.transmit_eq, hfuel, clientLoop, hread]
  by_cases hfits : out.bytes.length ≤ maxMessage
  · rw [if_neg (by omega), if_pos hfits]
    rfl
  · rw [if_pos (by omega), if_neg hfits]

/-- On an open connection a message is received if its length is accepted; otherwise the
connection is closed, and the send may fail. -/
theorem sendTcp_open (hstream : link.stream = []) (hopen : (link.closed && !env.noticed) = false) :
    link.sendTcp env out =
      if out.bytes.length ≤ maxMessage then
        { link with
          closed := false, stream := [], sent := link.sent ++ [out.bytes]
          received := link.received ++ [out.bytes] }
      else if env.accepted then
        { link with closed := true, stream := [], sent := link.sent ++ [out.bytes] }
      else { link with closed := true, stream := [] } := by
  let written : Link := { link with closed := false, stream := TcpTransport.transmit out }
  have hwritten : written.stream = TcpTransport.transmit out := rfl
  have hloop := clientLoop_transmit hout hwritten
  have hsend : link.sendTcp env out =
      if (clientLoop written.stream.length written).closed && !env.accepted then
        clientLoop written.stream.length written
      else { clientLoop written.stream.length written with
        sent := (clientLoop written.stream.length written).sent ++ [out.bytes] } := by
    simp only [sendTcp, hopen, hstream, ite_self, Bool.false_eq_true, if_false, List.nil_append]
    rfl
  rw [hsend, hloop]
  by_cases hfits : out.bytes.length ≤ maxMessage
  · rw [if_pos hfits, if_pos hfits]
    rfl
  · rw [if_neg hfits, if_neg hfits]
    cases env.accepted <;> rfl

omit hout in
/-- What is written to a closed connection is lost. -/
theorem sendTcp_closed (hclosed : (link.closed && !env.noticed) = true) :
    link.sendTcp env out =
      if env.accepted then { link with sent := link.sent ++ [out.bytes] } else link := by
  rw [sendTcp, if_pos hclosed]

end Send

/-! ### Datagrams -/

theorem after_udp {run : List (Surroundings × Outgoing)} (hrun : ∀ x ∈ run, Sendable x.2)
    (link : Link) :
    let passed := (run.map fun x => x.2.bytes).filter fun data => data.length ≤ maxDatagram
    after .udp link run =
      { link with
        sent := link.sent ++ passed
        received := link.received ++ passed.map (List.take recvBufferSize) } := by
  induction run generalizing link with
  | nil => simp [after]
  | cons x run ih =>
      have hrest := fun y hy => hrun y (List.mem_cons_of_mem _ hy)
      rw [after, send, sendUdp_eq (hrun x List.mem_cons_self)]
      by_cases hfits : x.2.bytes.length ≤ maxDatagram
      · rw [if_pos hfits, ih hrest]
        simp [hfits]
      · rw [if_neg hfits, ih hrest]
        simp [hfits]

theorem whole_udp {run : List (Surroundings × Outgoing)} (hrun : ∀ x ∈ run, Sendable x.2) :
    Whole (after .udp {} run) ↔ ∀ x ∈ run, Carried .udp x.2.bytes.length := by
  rw [after_udp hrun, Whole, consume]
  simp only [List.nil_append, List.take_nil, List.filterMap_nil, List.append_nil]
  constructor
  · intro hwhole x hx
    rw [← List.map_id (List.filter _ _), List.map_map] at hwhole
    by_cases hfits : x.2.bytes.length ≤ maxDatagram
    · have hmem : x.2.bytes ∈
          (run.map fun x => x.2.bytes).filter fun data => data.length ≤ maxDatagram :=
        List.mem_filter.mpr ⟨List.mem_map_of_mem hx, decide_eq_true hfits⟩
      have hsame := List.map_inj_left.mp hwhole _ hmem
      have hlength := congrArg List.length hsame
      rw [Function.comp_apply, id, List.length_take] at hlength
      exact Or.inl (by omega)
    · exact Or.inr (Nat.lt_of_not_le hfits)
  · intro hcarried
    rw [← List.map_id (List.filter _ _), List.map_map]
    refine List.map_congr_left fun data hmem => ?_
    obtain ⟨hdata, hfits⟩ := List.mem_filter.mp hmem
    obtain ⟨x, hx, rfl⟩ := List.mem_map.mp hdata
    obtain hshort | hlong := hcarried x hx
    · exact List.take_of_length_le hshort
    · exact absurd (of_decide_eq_true hfits) (Nat.not_le.mpr hlong)

/-! ### Streams -/

section Stream

variable {run : List (Surroundings × Outgoing)} (hrun : ∀ x ∈ run, Sendable x.2)
include hrun

/-- As long as every length is accepted, the callback is given what was sent. -/
theorem after_tcp_carried (hcarried : ∀ x ∈ run, Carried .tcp x.2.bytes.length) {link : Link}
    (hstream : link.stream = []) (hopen : link.closed = false) (h : link.received = link.sent) :
    (after .tcp link run).received = (after .tcp link run).sent := by
  induction run generalizing link with
  | nil => exact h
  | cons x run ih =>
      have hnotClosed : (link.closed && !x.1.noticed) = false := by rw [hopen, Bool.false_and]
      have hfits : x.2.bytes.length ≤ maxMessage := hcarried x List.mem_cons_self
      rw [after, send, sendTcp_open (hrun x List.mem_cons_self) hstream hnotClosed, if_pos hfits]
      refine ih (fun y hy => hrun y (List.mem_cons_of_mem _ hy))
        (fun y hy => hcarried y (List.mem_cons_of_mem _ hy)) rfl rfl ?_
      rw [h]

/-- A message that was lost stays lost. -/
theorem after_tcp_lost {link : Link} (hstream : link.stream = []) (lost : Nat)
    (h : link.received.length + lost ≤ link.sent.length) :
    (after .tcp link run).received.length + lost ≤ (after .tcp link run).sent.length := by
  induction run generalizing link with
  | nil => exact h
  | cons x run ih =>
      have hrest := fun y hy => hrun y (List.mem_cons_of_mem _ hy)
      rw [after, send]
      cases hclosed : link.closed && !x.1.noticed with
      | true =>
          rw [sendTcp_closed hclosed]
          split
          · refine ih hrest hstream ?_
            simp only [List.length_append, List.length_singleton]
            omega
          · exact ih hrest hstream h
      | false =>
          rw [sendTcp_open (hrun x List.mem_cons_self) hstream hclosed]
          split
          · refine ih hrest rfl ?_
            simp only [List.length_append, List.length_singleton]
            omega
          · split
            · refine ih hrest rfl ?_
              simp only [List.length_append, List.length_singleton]
              omega
            · exact ih hrest rfl h

/-- Where the system takes all that is written, the first message that is too long is lost. -/
theorem after_tcp_not_carried (haccepted : ∀ x ∈ run, x.1.accepted = true)
    (hlong : ∃ x ∈ run, ¬ Carried .tcp x.2.bytes.length) (link : Link)
    (hstream : link.stream = []) (hopen : link.closed = false) (h : link.received = link.sent) :
    (after .tcp link run).received.length < (after .tcp link run).sent.length := by
  induction run generalizing link with
  | nil =>
      obtain ⟨x, hx, _⟩ := hlong
      exact absurd hx List.not_mem_nil
  | cons x run ih =>
      have hrest := fun y hy => hrun y (List.mem_cons_of_mem _ hy)
      have hnotClosed : (link.closed && !x.1.noticed) = false := by rw [hopen, Bool.false_and]
      rw [after, send, sendTcp_open (hrun x List.mem_cons_self) hstream hnotClosed]
      by_cases hfits : x.2.bytes.length ≤ maxMessage
      · rw [if_pos hfits]
        refine ih hrest (fun y hy => haccepted y (List.mem_cons_of_mem _ hy)) ?_ _ rfl rfl ?_
        · obtain ⟨y, hy, hnot⟩ := hlong
          obtain rfl | hy := List.mem_cons.mp hy
          · exact absurd hfits hnot
          · exact ⟨y, hy, hnot⟩
        · rw [h]
      · rw [if_neg hfits, if_pos (haccepted x List.mem_cons_self)]
        refine after_tcp_lost hrest rfl 1 ?_
        rw [h, List.length_append]
        exact Nat.le_refl _

theorem after_tcp_inbox {link : Link} (hstream : link.stream = []) :
    (after .tcp link run).inbox = link.inbox := by
  induction run generalizing link with
  | nil => rfl
  | cons x run ih =>
      have hrest := fun y hy => hrun y (List.mem_cons_of_mem _ hy)
      rw [after, send]
      cases hclosed : link.closed && !x.1.noticed with
      | true =>
          rw [sendTcp_closed hclosed]
          split
          · exact ih hrest hstream
          · exact ih hrest hstream
      | false =>
          rw [sendTcp_open (hrun x List.mem_cons_self) hstream hclosed]
          split
          · exact ih hrest rfl
          · split
            · exact ih hrest rfl
            · exact ih hrest rfl

theorem whole_tcp_iff :
    Whole (after .tcp {} run) ↔ (after .tcp {} run).received = (after .tcp {} run).sent := by
  rw [Whole, consume, after_tcp_inbox hrun rfl]
  exact Iff.of_eq (congrArg (· = _) (List.append_nil _))

end Stream

/-! ### Shared memory -/

/-- The inbox holds what was sent and not received yet, and all of it fits the slots. -/
structure Stored (link : Link) : Prop where
  balance : link.received ++ link.inbox = link.sent
  fits : ∀ data ∈ link.inbox, 0 < data.length ∧ data.length + ShmTransport.slotHeader ≤ slotSize

theorem Stored.consume {link : Link} (h : Stored link) (count : Nat) :
    Stored (link.consume count) := by
  have htaken : (link.inbox.take count).filterMap (ShmTransport.received slotSize) =
      link.inbox.take count := by
    refine (List.filterMap_congr fun data hmem => ?_).trans List.filterMap_some
    obtain ⟨hpos, hfits⟩ := h.fits data (List.mem_of_mem_take hmem)
    exact ShmTransport.received_eq hpos hfits
  constructor
  · rw [Link.consume, htaken, List.append_assoc, List.take_append_drop]
    exact h.balance
  · intro data hmem
    exact h.fits data (List.mem_of_mem_drop hmem)

theorem Stored.sendShm {link : Link} (h : Stored link) (env : Surroundings) {out : Outgoing}
    (hout : Sendable out) : Stored (link.sendShm env out) := by
  have hconsumed := h.consume env.taken
  rw [Link.sendShm, ShmTransport.write]
  by_cases hslot : slotSize < out.bytes.length + ShmTransport.slotHeader
  · rw [if_pos hslot]
    exact hconsumed
  · rw [if_neg hslot]
    by_cases hfull : slotCount ≤ (link.consume env.taken).inbox.length
    · rw [if_pos hfull]
      exact hconsumed
    · rw [if_neg hfull]
      constructor
      · simp only [if_true, ← hconsumed.balance, List.append_assoc]
      · intro data hmem
        obtain hold | hnew := List.mem_append.mp hmem
        · exact hconsumed.fits data hold
        · obtain rfl := List.mem_singleton.mp hnew
          exact ⟨hout.1, Nat.le_of_not_lt hslot⟩

theorem whole_shm {run : List (Surroundings × Outgoing)} (hrun : ∀ x ∈ run, Sendable x.2) :
    Whole (after .shm {} run) := by
  have hstored : ∀ link, Stored link → Stored (after .shm link run) := by
    induction run with
    | nil => exact fun link h => h
    | cons x run ih =>
        intro link h
        exact ih (fun y hy => hrun y (List.mem_cons_of_mem _ hy)) _
          (h.sendShm x.1 (hrun x List.mem_cons_self))
  have hfinal := (hstored {} ⟨rfl, by simp⟩).consume (after .shm {} run).inbox.length
  have hempty : ((after .shm {} run).consume (after .shm {} run).inbox.length).inbox = [] :=
    List.drop_length ..
  have hbalance := hfinal.balance
  rw [hempty, List.append_nil] at hbalance
  exact hbalance

/-! ### Frames -/

/-- The message is a frame that the codec has encoded. -/
def IsFrame (out : Outgoing) : Prop :=
  ∃ args stamp, MessageCodec.Encodable args ∧ out.bytes = MessageCodec.encode args stamp

theorem IsFrame.sendable {out : Outgoing} (h : IsFrame out) : Sendable out := by
  obtain ⟨args, stamp, henc, hbytes⟩ := h
  have hlength := MessageCodec.encode_length henc stamp
  have htopic : args.topic.length ≤ 65535 := henc.1
  have hpayload : args.payload.length ≤ 67108864 := henc.2
  rw [Sendable, hbytes, hlength]
  split <;> split <;> omega

/-- The messages are sent in surroundings that let the sender write everything and notice
nothing. -/
def unnoticed (outs : List Outgoing) : List (Surroundings × Outgoing) :=
  outs.map fun out => (⟨0, false, true⟩, out)

theorem map_unnoticed (outs : List Outgoing) : (unnoticed outs).map Prod.snd = outs := by
  rw [unnoticed, List.map_map]
  exact List.map_id outs

/-- Whatever happens around the sends, messages that are reported as sent are received as they are,
and so are all later ones, if and only if every length is one that the transport carries or
refuses. -/
theorem whole_iff_carried (kind : TransportKind) (outs : List Outgoing)
    (houts : ∀ out ∈ outs, IsFrame out) :
    (∀ run : List (Surroundings × Outgoing), run.map Prod.snd = outs →
      Whole (after kind {} run)) ↔ ∀ out ∈ outs, Carried kind out.bytes.length := by
  have hsendable : ∀ run : List (Surroundings × Outgoing), run.map Prod.snd = outs →
      ∀ x ∈ run, Sendable x.2 := by
    rintro run rfl x hx
    exact (houts x.2 (List.mem_map_of_mem hx)).sendable
  have hunnoticed := hsendable _ (map_unnoticed outs)
  cases kind with
  | udp =>
      constructor
      · intro hwhole out hout
        have hmem : (⟨0, false, true⟩, out) ∈ unnoticed outs := List.mem_map_of_mem hout
        exact (whole_udp hunnoticed).mp (hwhole _ (map_unnoticed outs)) _ hmem
      · rintro hcarried run rfl
        exact (whole_udp (hsendable run rfl)).mpr fun x hx =>
          hcarried x.2 (List.mem_map_of_mem hx)
  | tcp =>
      constructor
      · intro hwhole
        by_contra hnot
        push Not at hnot
        obtain ⟨out, hout, hlong⟩ := hnot
        have hmem : (⟨0, false, true⟩, out) ∈ unnoticed outs := List.mem_map_of_mem hout
        have haccepted : ∀ x ∈ unnoticed outs, x.1.accepted = true := by
          intro x hx
          obtain ⟨_, -, rfl⟩ := List.mem_map.mp hx
          rfl
        have hless := after_tcp_not_carried hunnoticed haccepted ⟨_, hmem, hlong⟩ {} rfl rfl rfl
        rw [(whole_tcp_iff hunnoticed).mp (hwhole _ (map_unnoticed outs))] at hless
        exact absurd hless (Nat.lt_irrefl _)
      · rintro hcarried run rfl
        have hrun := hsendable run rfl
        refine (whole_tcp_iff hrun).mpr (after_tcp_carried hrun (fun x hx => ?_) rfl rfl rfl)
        exact hcarried x.2 (List.mem_map_of_mem hx)
  | shm => exact ⟨fun _ _ _ => trivial, fun _ run hrun => whole_shm (hsendable run hrun)⟩

/-- A PUBLISH with a payload of zeros. -/
def zeros (count : Nat) : MessageCodec.EncodeArgs where
  type := .publish
  sourceId := 1
  destId := 0xFFFF
  topic := [0x74]
  payload := List.replicate count 0
  qos := {}
  sequenceId := 1

def zerosSent (count : Nat) : List Outgoing := [.buffer (MessageCodec.encode (zeros count) 0)]

theorem zeros_encodable {count : Nat} (h : count ≤ MessageCodec.maxPayloadLen) :
    MessageCodec.Encodable (zeros count) := by
  have htopic : 1 ≤ MessageCodec.maxTopicLen := by decide
  refine ⟨htopic, ?_⟩
  change (List.replicate count (0 : UInt8)).length ≤ _
  rw [List.length_replicate]
  exact h

theorem zerosSent_isFrame {count : Nat} (h : count ≤ MessageCodec.maxPayloadLen) :
    ∀ x ∈ zerosSent count, IsFrame x := by
  intro x hx
  obtain rfl := List.mem_singleton.mp hx
  exact ⟨_, _, zeros_encodable h, rfl⟩

theorem zeros_length {count : Nat} (h : count ≤ MessageCodec.maxPayloadLen) :
    (MessageCodec.encode (zeros count) 0).length = 39 + count := by
  rw [MessageCodec.encode_length (zeros_encodable h)]
  change 26 + 8 + 4 + 1 + (List.replicate count (0 : UInt8)).length = _
  rw [List.length_replicate]

theorem whole_iff_carried_short :
    (∀ out ∈ zerosSent 100, Carried .tcp out.bytes.length) ∧
      ∀ run : List (Surroundings × Outgoing), run.map Prod.snd = zerosSent 100 →
        Whole (after .tcp {} run) := by
  have hcarried : ∀ out ∈ zerosSent 100, Carried .tcp out.bytes.length := by
    intro out hout
    obtain rfl := List.mem_singleton.mp hout
    change Carried .tcp (MessageCodec.encode (zeros 100) 0).length
    rw [zeros_length (by decide)]
    decide
  exact ⟨hcarried, (whole_iff_carried .tcp _ (zerosSent_isFrame (by decide))).mpr hcarried⟩

/-- A payload of 3000 bytes is reported as sent and does not fit the receive buffer. -/
theorem not_whole :
    ¬ ∀ kind (run : List (Surroundings × Outgoing)), (∀ x ∈ run, IsFrame x.2) →
      Whole (after kind {} run) := by
  intro hclaim
  have hframes : ∀ x ∈ unnoticed (zerosSent 3000), IsFrame x.2 := by
    intro x hx
    obtain ⟨out, hout, rfl⟩ := List.mem_map.mp hx
    exact zerosSent_isFrame (by decide) out hout
  have hwhole := hclaim .udp (unnoticed (zerosSent 3000)) hframes
  have hcarried := (whole_udp fun x hx => (hframes x hx).sendable).mp hwhole _ List.mem_cons_self
  change Carried .udp (MessageCodec.encode (zeros 3000) 0).length at hcarried
  rw [zeros_length (by decide)] at hcarried
  exact absurd hcarried (by decide)

end Link

end EmbedMq
