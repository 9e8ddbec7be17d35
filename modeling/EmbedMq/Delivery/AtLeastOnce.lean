import EmbedMq.Network.Provenance

/-!
# At least once

The bus answers an ExactlyOnce PUBLISH with a PUBREC before it looks for the number
in the window of the source. A number that the window stores belongs to a frame
that was let through, and numbers identify frames, so the message was routed then.
But the window also drops every number that is far below the highest one, whether
or not it has been seen. Such a frame is acknowledged and not routed.
-/

namespace EmbedMq

open MessageBus (checkedKey publishedMessage isAcknowledgement)
open MessageCodec (decode)

variable {ι : Type}

/-- A frame with this source and number was let through by the duplicate check, and if
it was a PUBLISH, its message was routed. -/
def LogEntry.Accepts (D : Deployment ι) (e : LogEntry ι) (src : UInt16) (q : UInt32) : Prop :=
  ∃ source data, e.call = .received source data ∧ checkedKey (D.sizeT e.node) data = some (src, q) ∧
    (MessageType.ofByte (decode (D.sizeT e.node) data).header.msgType = .publish →
      ∃ callbacks, .route (publishedMessage (decode (D.sizeT e.node) data)) callbacks ∈ e.effects)

namespace World

/-- One of these calls of the node handed the message to the router. -/
def Delivered (log : List (LogEntry ι)) (n : ι) (msg : ReceivedMessage) : Prop :=
  ∃ e ∈ log, e.node = n ∧ ∃ callbacks, .route msg callbacks ∈ e.effects

variable [DecidableEq ι]

variable {D : Deployment ι} {w : World ι}

/-! ### What the windows store -/

end World

/-! ### A message that arrives twice -/

namespace Party

/-- The sender has published its first message at ExactlyOnce. -/
def published : World Party := (World.system deployment).exec start
  [call sender 0 (.peerDiscovered (receiverInfo [[0x74]])),
    call sender 0 (.publish [0x74] [42] .exactlyOnce 0)]

/-- The frame of the message arrives. -/
def arrival : World.Label Party :=
  call receiver 0 (.received (endpoint sender) (firstFrame .exactlyOnce))

end Party

open Party

namespace Party

/-- The sender has used more numbers, and nothing has arrived anywhere. -/
structure Busy (used : Nat) (w : World Party) : Prop where
  reachable : (World.system deployment).Reachable w
  sender : w.nodes sender =
    { published.nodes sender with seqCounter := (published.nodes sender).seqCounter + used }
  receiver : w.nodes receiver = World.initialBus deployment receiver
  log : ∀ e ∈ w.log, e.node = Party.sender
  sent : w.Sent Party.sender (endpoint Party.receiver) (firstFrame .exactlyOnce)

/-- After 1024 more numbers the sender publishes again. -/
def again : World.Label Party := call sender 0 (.publish [0x74] [43] .exactlyOnce 0)

def laterFrame : Bytes :=
  MessageCodec.encode
    { type := .publish, sourceId := nodeId sender, destId := 0xFFFF, topic := [0x74],
      payload := [43], qos := .exactlyOnce, sequenceId := 1028 } 0

def laterArrival : World.Label Party :=
  call receiver 0 (.received (endpoint sender) laterFrame)

/-- The second message overtakes the first one. -/
def overtaken (w : World Party) : World Party :=
  ((w.step again).step laterArrival).step arrival

end Party

end EmbedMq
