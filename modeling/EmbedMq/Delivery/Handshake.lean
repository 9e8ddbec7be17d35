import EmbedMq.Network.Provenance

/-!
# The handshake of the sender

An ExactlyOnce PUBLISH waits in `pending` for its PUBREC and then, as a PUBREL, in
`pendingRel` for its PUBCOMP. The way is one-way as long as each PUBREC finds its
number in one of the two tables: a PUBCOMP exists only because this node sent the
PUBREL, so the number is out of `pending` for good, and no later PUBREC can bring it
back. A PUBREC for a number that waits nowhere is not ignored by the bus, and
brings it back.
-/

namespace EmbedMq

open MessageBus (Call Receives)
open MessageCodec (decode)

variable {ι : Type}

namespace World

variable [DecidableEq ι]

/-- A PUBREC that is processed finds its number in `pending` or in `pendingRel`. -/
def Expected (D : Deployment ι) (w : World ι) (l : Label ι) : Prop :=
  ∀ source q, Receives (D.sizeT l.node) l.call source .pubrec q →
    q ∈ (w.nodes l.node).qosEngine.pending ∨ q ∈ (w.nodes l.node).qosEngine.pendingRel

/-- The runs in which BestEffort messages fit the header and each PUBREC is expected. -/
def orderly (D : Deployment ι) : TransitionSystem (World ι) (Label ι) :=
  (system D).restrict fun w l => Fits l.call ∧ w.Expected D l

variable {D : Deployment ι} {w : World ι}

end World

/-! ### A complete handshake, and a PUBREC after it -/

namespace Party

end Party

open Party

end EmbedMq
