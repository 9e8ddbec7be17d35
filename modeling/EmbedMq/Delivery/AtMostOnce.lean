import EmbedMq.Network.Basic

/-!
# At most once

An ExactlyOnce PUBLISH is identified by its source and number. A receiver marks
the number when it routes the message, and a marked number is not routed. The mark
is lost only with the whole window of the source, which the periodic task removes
when the source has been idle for more than thirty seconds. So between two
deliveries of the same message the window was removed for idleness.
-/

namespace EmbedMq

open MessageBus (checkedKey publishedMessage)

variable {ι : Type}

/-- The call presented a number of `src` to the duplicate check. -/
def LogEntry.Checks (D : Deployment ι) (e : LogEntry ι) (src : UInt16) : Prop :=
  ∃ source data q, e.call = .received source data ∧
    checkedKey (D.sizeT e.node) data = some (src, q)

namespace World

variable [DecidableEq ι] {D : Deployment ι} {w : World ι}

/-! ### Marks and times -/

end World

/-! ### A message delivered twice -/

namespace Party

end Party

open Party

end EmbedMq
