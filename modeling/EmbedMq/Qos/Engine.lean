import EmbedMq.Foundation.Table
import EmbedMq.Qos.DedupWindow

/-!
# The QoS engine

`QoSEngine` of `qos_engine.h`. A frame that waits for its ACK or PUBREC is in
`pending`; a PUBREL that waits for its PUBCOMP is in `pendingRel`; `windows` has
one window for each source that sent ExactlyOnce frames.

The source keeps a closure with each entry, which sends the stored bytes to a
captured endpoint. Here the entry keeps the endpoint, and an operation returns
the calls of the closures as a list of `Resend`s. Times are readings of the
steady clock in nanoseconds. `sent` is the reading that is taken when the frame
with a given number is sent again.
-/

namespace EmbedMq

structure PendingMsg where
  seqId : UInt32
  data : Bytes
  lastSent : Int
  retryCount : UInt32 := 0
  maxRetries : UInt32 := 0
  retryIntervalMs : UInt32 := 0
  qosLevel : QoSLevel := .bestEffort
  /-- The endpoint that the closure `resend` has captured. -/
  resend : Endpoint

/-- One call of a `resend` closure. -/
structure Resend where
  seqId : UInt32
  dest : Endpoint
  data : Bytes
  deriving DecidableEq

structure QoSEngine where
  pending : Table UInt32 PendingMsg := ∅
  pendingRel : Table UInt32 PendingMsg := ∅
  windows : Table UInt16 DedupWindow := ∅

namespace QoSEngine

def make (seqId : UInt32) (data : Bytes) (qos : QoSProfile) (resend : Endpoint) (now : Int) :
    PendingMsg where
  seqId := seqId
  data := data
  lastSent := now
  maxRetries := qos.maxRetries
  retryIntervalMs := qos.retryIntervalMs
  qosLevel := qos.level
  resend := resend

def addPending (e : QoSEngine) (seqId : UInt32) (data : Bytes) (qos : QoSProfile)
    (resend : Endpoint) (now : Int) : QoSEngine :=
  { e with pending := e.pending.insert seqId (make seqId data qos resend now) }

def onAck (e : QoSEngine) (seqId : UInt32) : QoSEngine :=
  { e with pending := e.pending.erase seqId }

/-- What `retry` does to an entry; the closure is called with the stored bytes. -/
def retry (pm : PendingMsg) (now : Int) : PendingMsg :=
  { pm with retryCount := pm.retryCount + 1, lastSent := now }

def resendOf (pm : PendingMsg) : Resend := ⟨pm.seqId, pm.resend, pm.data⟩

def onNack (e : QoSEngine) (seqId : UInt32) (now : Int) : QoSEngine × List Resend :=
  match e.pending.lookup seqId with
  | some pm => ({ e with pending := e.pending.insert seqId (retry pm now) }, [resendOf pm])
  | none => (e, [])

/-- Stop repeating the PUBLISH; the result says whether it was pending. -/
def onPubrec (e : QoSEngine) (seqId : UInt32) : Bool × QoSEngine :=
  (decide (seqId ∈ e.pending), { e with pending := e.pending.erase seqId })

def addPendingRel (e : QoSEngine) (seqId : UInt32) (data : Bytes) (qos : QoSProfile)
    (resend : Endpoint) (now : Int) : QoSEngine :=
  { e with pendingRel := e.pendingRel.insert seqId (make seqId data qos resend now) }

def onPubcomp (e : QoSEngine) (seqId : UInt32) : QoSEngine :=
  { e with pendingRel := e.pendingRel.erase seqId }

/-! ### Timeouts -/

/-- `elapsed >= retryIntervalMs`, with the elapsed time cut to milliseconds. -/
def due (now : Int) (pm : PendingMsg) : Bool :=
  decide ((pm.retryIntervalMs.toNat : Int) ≤ (now - pm.lastSent).tdiv 1000000)

def exhausted (pm : PendingMsg) : Bool := decide (pm.maxRetries ≤ pm.retryCount)

/-- One entry of `sweep`: unchanged, sent again, or given up. -/
def sweepEntry (now : Int) (sent : UInt32 → Int) (pm : PendingMsg) : Option PendingMsg :=
  if due now pm then
    if exhausted pm then none else some (retry pm (sent pm.seqId))
  else some pm

structure Swept where
  table : Table UInt32 PendingMsg
  abandoned : List UInt32
  resends : List Resend

def sweep (t : Table UInt32 PendingMsg) (now : Int) (sent : UInt32 → Int) : Swept where
  table := t.sweep fun _ pm => sweepEntry now sent pm
  abandoned := t.toList.filterMap fun entry =>
    if due now entry.2 && exhausted entry.2 then some entry.2.seqId else none
  resends := t.toList.filterMap fun entry =>
    if due now entry.2 && !exhausted entry.2 then some (resendOf entry.2) else none

structure TimeoutResult where
  engine : QoSEngine
  abandoned : List UInt32
  resends : List Resend
  resendRels : List Resend

def processTimeouts (e : QoSEngine) (now : Int) (sent : UInt32 → Int) : TimeoutResult :=
  let publishes := sweep e.pending now sent
  let releases := sweep e.pendingRel now sent
  { engine := { e with pending := publishes.table, pendingRel := releases.table }
    abandoned := publishes.abandoned ++ releases.abandoned
    resends := publishes.resends
    resendRels := releases.resends }

/-! ### Duplicates -/

/-- `windows_[sourceId]`, with its time of use. -/
def touched (e : QoSEngine) (sourceId : UInt16) (now : Int) : DedupWindow :=
  { (e.windows.lookup sourceId).getD {} with lastTouch := now }

def isDuplicate (e : QoSEngine) (sourceId : UInt16) (seqId : UInt32) (now : Int) :
    Bool × QoSEngine :=
  let (duplicate, w) := (e.touched sourceId now).checkAndMark seqId
  (duplicate, { e with windows := e.windows.insert sourceId w })

/-- `DEDUP_IDLE_TTL_SEC`, in nanoseconds. -/
def dedupIdleTtl : Int := 30 * 1000000000

def idle (now : Int) (w : DedupWindow) : Bool := decide (dedupIdleTtl < now - w.lastTouch)

def cleanupDedupWindow (e : QoSEngine) (now : Int) : QoSEngine :=
  { e with windows := e.windows.sweep fun _ w => if idle now w then none else some w }

/-- The sources whose windows `cleanupDedupWindow` removes. -/
def idleSources (e : QoSEngine) (now : Int) : List UInt16 :=
  e.windows.toList.filterMap fun entry => if idle now entry.2 then some entry.1 else none

/-! ### Lookups after each operation -/

section Lookup

variable (e : QoSEngine) (seqId q : UInt32) (data : Bytes) (qos : QoSProfile) (ep : Endpoint)
  (now : Int) (sent : UInt32 → Int)

theorem lookup_addPending :
    (e.addPending seqId data qos ep now).pending.lookup q =
      if q = seqId then some (make seqId data qos ep now) else e.pending.lookup q :=
  Table.lookup_insert_eq _ _ _ _

theorem lookup_onAck :
    (e.onAck seqId).pending.lookup q = if q = seqId then none else e.pending.lookup q :=
  Table.lookup_erase_eq _ _ _

theorem lookup_onPubrec :
    (e.onPubrec seqId).2.pending.lookup q = if q = seqId then none else e.pending.lookup q :=
  Table.lookup_erase_eq _ _ _

theorem lookup_addPendingRel :
    (e.addPendingRel seqId data qos ep now).pendingRel.lookup q =
      if q = seqId then some (make seqId data qos ep now) else e.pendingRel.lookup q :=
  Table.lookup_insert_eq _ _ _ _

theorem lookup_onPubcomp :
    (e.onPubcomp seqId).pendingRel.lookup q = if q = seqId then none else e.pendingRel.lookup q :=
  Table.lookup_erase_eq _ _ _

theorem lookup_sweep (t : Table UInt32 PendingMsg) :
    (sweep t now sent).table.lookup q = (t.lookup q).bind (sweepEntry now sent) :=
  Table.lookup_sweep _ _ _

theorem mem_sweep_abandoned {t : Table UInt32 PendingMsg} {id : UInt32} :
    id ∈ (sweep t now sent).abandoned ↔
      ∃ k pm, t.lookup k = some pm ∧ due now pm = true ∧ exhausted pm = true ∧ pm.seqId = id := by
  rw [sweep, Table.mem_selected_map (p := fun pm => (due now pm && exhausted pm) = true)]
  simp only [Bool.and_eq_true, and_assoc]

theorem mem_sweep_resends {t : Table UInt32 PendingMsg} {r : Resend} :
    r ∈ (sweep t now sent).resends ↔
      ∃ k pm, t.lookup k = some pm ∧ due now pm = true ∧ exhausted pm = false ∧
        resendOf pm = r := by
  rw [sweep, Table.mem_selected_map (p := fun pm => (due now pm && !exhausted pm) = true)]
  simp only [Bool.and_eq_true, Bool.not_eq_true', and_assoc]

/-- A sweep leaves an entry alone, sends it again, or gives it up. -/
theorem sweep_cases {t : Table UInt32 PendingMsg} {pm : PendingMsg} (h : t.lookup q = some pm) :
    (sweep t now sent).table.lookup q = some pm ∨
    ((sweep t now sent).table.lookup q = some (retry pm (sent pm.seqId)) ∧
      resendOf pm ∈ (sweep t now sent).resends) ∨
    ((sweep t now sent).table.lookup q = none ∧ exhausted pm = true ∧
      pm.seqId ∈ (sweep t now sent).abandoned) := by
  rw [lookup_sweep, h, Option.bind_some, sweepEntry]
  by_cases hdue : due now pm = true
  · rw [if_pos hdue]
    by_cases hexhausted : exhausted pm = true
    · rw [if_pos hexhausted]
      exact Or.inr (Or.inr ⟨rfl, hexhausted,
        (mem_sweep_abandoned now sent).mpr ⟨q, pm, h, hdue, hexhausted, rfl⟩⟩)
    · rw [if_neg hexhausted]
      have hleft : exhausted pm = false := Bool.eq_false_iff.mpr hexhausted
      exact Or.inr (Or.inl ⟨rfl, (mem_sweep_resends now sent).mpr ⟨q, pm, h, hdue, hleft, rfl⟩⟩)
  · rw [if_neg hdue]
    exact Or.inl rfl

theorem touched_of_window {source : UInt16} {w : DedupWindow}
    (h : e.windows.lookup source = some w) :
    e.touched source now = { w with lastTouch := now } := by
  rw [touched, h]
  rfl

theorem isDuplicate_iff (source : UInt16) :
    (e.isDuplicate source seqId now).1 = true ↔ (e.touched source now).Marked seqId :=
  DedupWindow.checkAndMark_duplicate_iff _ _

/-- The verdict on a number of a source that has a window. -/
theorem isDuplicate_iff_marked {source : UInt16} {w : DedupWindow}
    (h : e.windows.lookup source = some w) :
    (e.isDuplicate source seqId now).1 = true ↔ w.Marked seqId := by
  rw [isDuplicate_iff, touched_of_window e now h]
  exact Iff.rfl

/-- A source without a window has no duplicates. -/
theorem isDuplicate_of_no_window {source : UInt16} (h : e.windows.lookup source = none) :
    (e.isDuplicate source seqId now).1 = false := by
  rw [Bool.eq_false_iff, Ne, isDuplicate_iff, touched, h]
  rintro ⟨hany, _⟩
  exact absurd hany Bool.false_ne_true

end Lookup

end QoSEngine

end EmbedMq
