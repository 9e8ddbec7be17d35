import EmbedMq.Foundation.Transition
import EmbedMq.Qos.Engine
import Mathlib.Algebra.Group.Nat.Defs

/-!
# What the retransmissions of an entry add up to

The engine has two tables and one sweep for both. A call means the same thing for either of
them: it inserts an entry, removes one, sends one again, or runs the sweep; `Call.role` says
which. What is proved of a role holds for both tables.

Beside the engine stands a ledger, which is kept from the calls and from what they send and
return. It has one account for each residency of a number in a table.
-/

namespace EmbedMq

namespace QoSEngine

/-- The two tables: PUBLISH frames and PUBREL frames. -/
inductive Phase where
  | publish
  | release
  deriving DecidableEq

def Phase.select {α : Type} (publish release : α) : Phase → α
  | .publish => publish
  | .release => release

def table (e : QoSEngine) : Phase → Table UInt32 PendingMsg :=
  Phase.select e.pending e.pendingRel

/-- A call, with the readings of the clock that it takes. A sweep takes a new one for each frame
that it sends again. -/
inductive Call where
  | addPending (seqId : UInt32) (data : Bytes) (qos : QoSProfile) (resend : Endpoint) (now : Int)
  | onAck (seqId : UInt32)
  | onNack (seqId : UInt32) (now : Int)
  | onPubrec (seqId : UInt32)
  | addPendingRel (seqId : UInt32) (data : Bytes) (qos : QoSProfile) (resend : Endpoint)
      (now : Int)
  | onPubcomp (seqId : UInt32)
  | processTimeouts (now : Int) (sent : Phase → UInt32 → Int)

/-- What a call sends again, and the part of the returned list that comes from each table. -/
structure Answer where
  resends : Phase → List Resend := fun _ => []
  abandoned : Phase → List UInt32 := fun _ => []

def exec : Call → QoSEngine → QoSEngine × Answer
  | .addPending seqId data qos resend now, e => (e.addPending seqId data qos resend now, {})
  | .onAck seqId, e => (e.onAck seqId, {})
  | .onNack seqId now, e =>
      ((e.onNack seqId now).1, { resends := Phase.select (e.onNack seqId now).2 [] })
  | .onPubrec seqId, e => ((e.onPubrec seqId).2, {})
  | .addPendingRel seqId data qos resend now, e =>
      (e.addPendingRel seqId data qos resend now, {})
  | .onPubcomp seqId, e => (e.onPubcomp seqId, {})
  | .processTimeouts now sent, e =>
      let publishes := sweep e.pending now (sent .publish)
      let releases := sweep e.pendingRel now (sent .release)
      ({ e with pending := publishes.table, pendingRel := releases.table },
        { resends := Phase.select publishes.resends releases.resends
          abandoned := Phase.select publishes.abandoned releases.abandoned })

/-- The sweep of both tables is the one of `processTimeouts`. -/
theorem exec_processTimeouts (e : QoSEngine) (now : Int) (sent : UInt32 → Int) :
    (exec (.processTimeouts now fun _ => sent) e).1 = (e.processTimeouts now sent).engine ∧
      (exec (.processTimeouts now fun _ => sent) e).2.abandoned .publish ++
        (exec (.processTimeouts now fun _ => sent) e).2.abandoned .release =
          (e.processTimeouts now sent).abandoned :=
  ⟨rfl, rfl⟩

/-! ### One table -/

/-- What a call means for one table. -/
inductive Role where
  | insert (seqId : UInt32) (data : Bytes) (qos : QoSProfile) (resend : Endpoint) (now : Int)
  | remove (seqId : UInt32)
  | nack (seqId : UInt32) (now : Int)
  | timeouts (now : Int) (sent : UInt32 → Int)
  | none

def Call.role : Phase → Call → Role
  | .publish, .addPending seqId data qos resend now => .insert seqId data qos resend now
  | .publish, .onAck seqId => .remove seqId
  | .publish, .onPubrec seqId => .remove seqId
  | .publish, .onNack seqId now => .nack seqId now
  | .release, .addPendingRel seqId data qos resend now => .insert seqId data qos resend now
  | .release, .onPubcomp seqId => .remove seqId
  | phase, .processTimeouts now sent => .timeouts now (sent phase)
  | _, _ => .none

theorem role_processTimeouts (phase : Phase) (now : Int) (sent : Phase → UInt32 → Int) :
    (Call.processTimeouts now sent).role phase = .timeouts now (sent phase) := by
  cases phase <;> rfl

namespace Role

/-- An entry of the table after the call. -/
def entry (q : UInt32) (pm : Option PendingMsg) : Role → Option PendingMsg
  | .insert seqId data qos resend now =>
      if q = seqId then some (make seqId data qos resend now) else pm
  | .remove seqId => if q = seqId then Option.none else pm
  | .nack seqId now => if q = seqId then pm.map (retry · now) else pm
  | .timeouts now sent => pm.bind (sweepEntry now sent)
  | .none => pm

def resends (t : Table UInt32 PendingMsg) : Role → List Resend
  | .nack seqId _ => ((t.lookup seqId).map resendOf).toList
  | .timeouts now sent => (sweep t now sent).resends
  | _ => []

def abandoned (t : Table UInt32 PendingMsg) : Role → List UInt32
  | .timeouts now sent => (sweep t now sent).abandoned
  | _ => []

end Role

section Roles

variable (e : QoSEngine) (phase : Phase) (call : Call)

theorem lookup_onNack (seqId q : UInt32) (now : Int) :
    (e.onNack seqId now).1.pending.lookup q =
      if q = seqId then (e.pending.lookup q).map (retry · now) else e.pending.lookup q := by
  rw [onNack]
  by_cases hq : q = seqId
  · rw [if_pos hq, hq]
    cases hlookup : e.pending.lookup seqId with
    | none => exact hlookup
    | some pm => exact AList.lookup_insert _
  · rw [if_neg hq]
    cases e.pending.lookup seqId with
    | none => rfl
    | some pm => exact AList.lookup_insert_ne hq

theorem onNack_pendingRel (seqId : UInt32) (now : Int) :
    (e.onNack seqId now).1.pendingRel = e.pendingRel := by
  rw [onNack]
  cases e.pending.lookup seqId <;> rfl

theorem onNack_resends (seqId : UInt32) (now : Int) :
    (e.onNack seqId now).2 = ((e.pending.lookup seqId).map resendOf).toList := by
  rw [onNack]
  cases e.pending.lookup seqId <;> rfl

/-- A call does to the entries of a table what its role says. -/
theorem lookup_exec (q : UInt32) :
    ((exec call e).1.table phase).lookup q =
      (call.role phase).entry q ((e.table phase).lookup q) := by
  cases phase with
  | publish =>
      cases call with
      | addPending seqId data qos resend now =>
          exact lookup_addPending e seqId q data qos resend now
      | onAck seqId => exact lookup_onAck e seqId q
      | onNack seqId now => exact lookup_onNack e seqId q now
      | onPubrec seqId => exact lookup_onPubrec e seqId q
      | addPendingRel | onPubcomp => rfl
      | processTimeouts now sent => exact lookup_sweep q now (sent .publish) e.pending
  | release =>
      cases call with
      | addPending | onAck | onPubrec => rfl
      | onNack seqId now => exact congrArg (AList.lookup q) (onNack_pendingRel e seqId now)
      | addPendingRel seqId data qos resend now =>
          exact lookup_addPendingRel e seqId q data qos resend now
      | onPubcomp seqId => exact lookup_onPubcomp e seqId q
      | processTimeouts now sent => exact lookup_sweep q now (sent .release) e.pendingRel

theorem resends_exec :
    (exec call e).2.resends phase = (call.role phase).resends (e.table phase) := by
  cases phase <;> cases call <;> first | rfl | exact onNack_resends e _ _

theorem abandoned_exec :
    (exec call e).2.abandoned phase = (call.role phase).abandoned (e.table phase) := by
  cases phase <;> cases call <;> rfl

end Roles

/-! ### The ledger -/

/-- The account of a number in a table, from its insertion on. -/
structure Residency where
  data : Bytes
  qos : QoSProfile
  dest : Endpoint
  /-- When it was inserted or sent again last. -/
  lastSent : Int
  timeouts : Nat := 0
  nacks : Nat := 0

/-- The entry with this account. The counter of the entry wraps. -/
def Residency.entry (seqId : UInt32) (r : Residency) : PendingMsg :=
  { make seqId r.data r.qos r.dest r.lastSent with
    retryCount := UInt32.ofNat (r.timeouts + r.nacks) }

theorem Residency.retry_nack {seqId : UInt32} (r : Residency) (now : Int) :
    retry (r.entry seqId) now =
      Residency.entry seqId { r with lastSent := now, nacks := r.nacks + 1 } := by
  simp [Residency.entry, retry, make, UInt32.ofNat_add, UInt32.add_assoc]

theorem Residency.retry_timeout {seqId : UInt32} (r : Residency) (now : Int) :
    retry (r.entry seqId) now =
      Residency.entry seqId { r with lastSent := now, timeouts := r.timeouts + 1 } := by
  rw [Residency.retry_nack, Residency.entry, Residency.entry, Nat.add_right_comm]
  rfl

/-- The account of `q` after a call, from what was called, sent and returned. -/
def Role.account (resent abandoned : List UInt32) (q : UInt32) (r : Option Residency) :
    Role → Option Residency
  | .insert seqId data qos dest now =>
      if q = seqId then some { data, qos, dest, lastSent := now } else r
  | .remove seqId => if q = seqId then Option.none else r
  | .nack seqId now =>
      if q = seqId then
        r.map fun r => { r with
          lastSent := if q ∈ resent then now else r.lastSent
          nacks := r.nacks + 1 }
      else r
  | .timeouts _ sent =>
      if q ∈ abandoned then Option.none
      else if q ∈ resent then
        r.map fun r => { r with lastSent := sent q, timeouts := r.timeouts + 1 }
      else r
  | .none => r

/-- The engine, its accounts, and the latest reading of the clock. -/
structure Ledger where
  engine : QoSEngine := {}
  accounts : Phase → UInt32 → Option Residency := fun _ _ => Option.none
  clock : Int

def Answer.resentIds (answer : Answer) (phase : Phase) : List UInt32 :=
  (answer.resends phase).map (·.seqId)

/-- The readings of a call lie between two times. -/
def Call.Within (start stop : Int) : Call → Prop
  | .addPending _ _ _ _ now => start ≤ now ∧ now ≤ stop
  | .onNack _ now => start ≤ now ∧ now ≤ stop
  | .addPendingRel _ _ _ _ now => start ≤ now ∧ now ≤ stop
  | .processTimeouts now sent =>
      start ≤ now ∧ now ≤ stop ∧ ∀ phase q, now ≤ sent phase q ∧ sent phase q ≤ stop
  | _ => start ≤ stop

/-- A call that is over at a time. -/
structure Timed where
  call : Call
  stop : Int

/-- Any calls one after the other, while the clock does not go back. -/
def accounting : TransitionSystem Ledger Timed where
  init s := s.engine = {} ∧ s.accounts = fun _ _ => Option.none
  enabled s l := l.call.Within s.clock l.stop
  next s l :=
    { engine := (exec l.call s.engine).1
      accounts := fun phase q =>
        (l.call.role phase).account ((exec l.call s.engine).2.resentIds phase)
          ((exec l.call s.engine).2.abandoned phase) q (s.accounts phase q)
      clock := l.stop }

/-- What holds of a call and of a number in a table. `limit` bounds the NACKs of an entry. -/
structure Accounted (limit : Residency → Nat) (s : Ledger) (l : Timed) (phase : Phase)
    (q : UInt32) : Prop where
  /-- The accounts are those of the entries. -/
  resident : (s.engine.table phase).lookup q = (s.accounts phase q).map (Residency.entry q)
  /-- Only what has an account is sent again, with the bytes of its insertion. -/
  resent : ∀ x ∈ (exec l.call s.engine).2.resends phase, ∃ r,
    s.accounts phase x.seqId = some r ∧ x.data = r.data ∧ x.dest = r.dest
  /-- A sweep sends it again at most once, and not before its interval is over. -/
  paced : ∀ now sent, l.call = .processTimeouts now sent →
    ((exec l.call s.engine).2.resentIds phase).count q ≤ 1 ∧
      ∀ r, q ∈ (exec l.call s.engine).2.resentIds phase → s.accounts phase q = some r →
        (r.qos.retryIntervalMs.toNat : Int) * 1000000 ≤ now - r.lastSent
  bounded : ∀ r, (accounting.next s l).accounts phase q = some r → r.nacks < limit r →
    r.timeouts ≤ r.qos.maxRetries.toNat
  /-- An entry is removed by the call for it, replaced, given up, or stays as it was inserted. -/
  removed : ∀ pm, (s.engine.table phase).lookup q = some pm →
    l.call.role phase = .remove q ∨
    (∃ data qos dest now, l.call.role phase = .insert q data qos dest now) ∨
    (∃ now sent, l.call.role phase = .timeouts now sent ∧ due now pm = true ∧
      pm.maxRetries ≤ pm.retryCount ∧
      ((exec l.call s.engine).1.table phase).lookup q = Option.none ∧
      ((exec l.call s.engine).2.abandoned phase).count q = 1) ∨
    (q ∉ (exec l.call s.engine).2.abandoned phase ∧
      ∃ pm', ((exec l.call s.engine).1.table phase).lookup q = some pm' ∧
        pm'.data = pm.data ∧ pm'.resend = pm.resend)

/-! ### What a role does to an account -/

/-- The entries of the table are those of the accounts. -/
def Kept (t : Table UInt32 PendingMsg) (accounts : UInt32 → Option Residency) : Prop :=
  ∀ q, t.lookup q = (accounts q).map (Residency.entry q)

namespace Kept

variable {t : Table UInt32 PendingMsg} {accounts : UInt32 → Option Residency}
  (h : Kept t accounts)
include h

theorem seqId {q : UInt32} {pm : PendingMsg} (hpm : t.lookup q = some pm) : pm.seqId = q := by
  rw [h q] at hpm
  obtain ⟨r, -, rfl⟩ := Option.map_eq_some_iff.mp hpm
  rfl

theorem abandoned_eq (now : Int) (sent : UInt32 → Int) :
    (sweep t now sent).abandoned = t.toList.filterMap fun entry =>
      if (due now entry.2 && exhausted entry.2) = true then some entry.1 else none := by
  refine List.filterMap_congr fun entry hentry => ?_
  rw [h.seqId (Table.mem_toList_iff.mp hentry)]

theorem resentIds_eq (now : Int) (sent : UInt32 → Int) :
    (sweep t now sent).resends.map (·.seqId) = t.toList.filterMap fun entry =>
      if (due now entry.2 && !exhausted entry.2) = true then some entry.1 else none := by
  rw [sweep, List.map_filterMap]
  refine List.filterMap_congr fun entry hentry => ?_
  split
  · exact congrArg some (h.seqId (Table.mem_toList_iff.mp hentry))
  · rfl

theorem mem_abandoned {now : Int} {sent : UInt32 → Int} {q : UInt32} :
    q ∈ (sweep t now sent).abandoned ↔
      ∃ pm, t.lookup q = some pm ∧ due now pm = true ∧ exhausted pm = true := by
  rw [h.abandoned_eq, Table.mem_selected (p := fun pm => (due now pm && exhausted pm) = true)]
  simp only [Bool.and_eq_true]

theorem mem_resentIds {now : Int} {sent : UInt32 → Int} {q : UInt32} :
    q ∈ (sweep t now sent).resends.map (·.seqId) ↔
      ∃ pm, t.lookup q = some pm ∧ due now pm = true ∧ exhausted pm = false := by
  rw [h.resentIds_eq, Table.mem_selected (p := fun pm => (due now pm && !exhausted pm) = true)]
  simp only [Bool.and_eq_true, Bool.not_eq_true']

theorem lookup_of_account {q : UInt32} {r : Residency} (hr : accounts q = some r) :
    t.lookup q = some (r.entry q) := by
  rw [h q, hr]
  rfl

theorem lookup_of_no_account {q : UInt32} (hnone : accounts q = none) : t.lookup q = none := by
  rw [h q, hnone]
  rfl

/-- A NACK sends the entry again. -/
theorem entry_nack (q : UInt32) (now : Int) :
    (t.lookup q).map (retry · now) =
      ((Role.nack q now).account (((Role.nack q now).resends t).map (·.seqId)) [] q
        (accounts q)).map (Residency.entry q) := by
  rw [Role.account, if_pos rfl]
  cases haccount : accounts q with
  | none =>
      rw [h.lookup_of_no_account haccount]
      rfl
  | some r =>
      have hresent : q ∈ ((Role.nack q now).resends t).map (·.seqId) := by
        rw [Role.resends, h.lookup_of_account haccount]
        exact List.mem_singleton_self q
      rw [h.lookup_of_account haccount, Option.map_some, Option.map_some, Option.map_some,
        if_pos hresent, r.retry_nack]

/-- The sweep leaves an entry alone, sends it again, or gives it up. -/
theorem entry_timeouts (q : UInt32) (now : Int) (sent : UInt32 → Int) :
    (t.lookup q).bind (sweepEntry now sent) =
      ((Role.timeouts now sent).account ((sweep t now sent).resends.map (·.seqId))
        (sweep t now sent).abandoned q (accounts q)).map (Residency.entry q) := by
  rw [Role.account]
  cases haccount : accounts q with
  | none =>
      rw [h.lookup_of_no_account haccount]
      split
      · rfl
      · split <;> rfl
  | some r =>
      have habandoned : q ∈ (sweep t now sent).abandoned ↔ _ := h.mem_abandoned
      have hresent : q ∈ (sweep t now sent).resends.map (·.seqId) ↔ _ := h.mem_resentIds
      simp only [h.lookup_of_account haccount, Option.some.injEq, exists_eq_left']
        at habandoned hresent
      rw [h.lookup_of_account haccount, Option.bind_some, sweepEntry]
      by_cases hdue : due now (r.entry q) = true
      · by_cases hexhausted : exhausted (r.entry q) = true
        · rw [if_pos hdue, if_pos hexhausted, if_pos (habandoned.mpr ⟨hdue, hexhausted⟩)]
          rfl
        · have hkeep : q ∉ (sweep t now sent).abandoned :=
            fun hmem => hexhausted (habandoned.mp hmem).2
          have hagain := hresent.mpr ⟨hdue, Bool.eq_false_iff.mpr hexhausted⟩
          rw [if_pos hdue, if_neg hexhausted, if_neg hkeep, if_pos hagain, Option.map_some,
            Option.map_some, ← r.retry_timeout]
          rfl
      · have hkeep : q ∉ (sweep t now sent).abandoned := fun hmem => hdue (habandoned.mp hmem).1
        have hquiet : q ∉ (sweep t now sent).resends.map (·.seqId) :=
          fun hmem => hdue (hresent.mp hmem).1
        rw [if_neg hdue, if_neg hkeep, if_neg hquiet]
        rfl

/-- The entry that a call makes of one has the account that the ledger makes of its own. -/
theorem entry_eq (role : Role) (q : UInt32) :
    role.entry q (t.lookup q) =
      (role.account ((role.resends t).map (·.seqId)) (role.abandoned t) q (accounts q)).map
        (Residency.entry q) := by
  cases role with
  | none => exact h q
  | insert seqId data qos resend now =>
      rw [Role.entry, Role.account, h q]
      by_cases hq : q = seqId
      · rw [if_pos hq, if_pos hq, hq]
        rfl
      · rw [if_neg hq, if_neg hq]
  | remove seqId =>
      rw [Role.entry, Role.account, h q]
      by_cases hq : q = seqId
      · rw [if_pos hq, if_pos hq]
        rfl
      · rw [if_neg hq, if_neg hq]
  | nack seqId now =>
      by_cases hq : q = seqId
      · rw [Role.entry, if_pos hq, ← hq]
        exact h.entry_nack q now
      · rw [Role.entry, Role.account, if_neg hq, if_neg hq, h q]
  | timeouts now sent => exact h.entry_timeouts q now sent

end Kept

/-! ### Whole runs -/

/-- The readings that a call takes for one table lie between two times. -/
def Role.Within (start stop : Int) : Role → Prop
  | .insert _ _ _ _ now => now ≤ stop
  | .nack _ now => now ≤ stop
  | .timeouts now sent => start ≤ now ∧ ∀ q, sent q ≤ stop
  | _ => True

theorem Call.Within.le {start stop : Int} {call : Call} (h : call.Within start stop) :
    start ≤ stop := by
  cases call with
  | addPending | onNack | addPendingRel => exact Int.le_trans h.1 h.2
  | onAck | onPubrec | onPubcomp => exact h
  | processTimeouts => exact Int.le_trans h.1 h.2.1

theorem Call.Within.role {start stop : Int} {call : Call} (h : call.Within start stop)
    (phase : Phase) : (call.role phase).Within start stop := by
  cases phase with
  | publish =>
      cases call with
      | addPending | onNack => exact h.2
      | onAck | onPubrec | addPendingRel | onPubcomp => trivial
      | processTimeouts => exact ⟨h.1, fun q => (h.2.2 .publish q).2⟩
  | release =>
      cases call with
      | addPendingRel => exact h.2
      | addPending | onAck | onNack | onPubrec | onPubcomp => trivial
      | processTimeouts => exact ⟨h.1, fun q => (h.2.2 .release q).2⟩

/-- An account after a call is the one before, or comes from it in one of three ways. -/
theorem Kept.account_cases {t : Table UInt32 PendingMsg} {accounts : UInt32 → Option Residency}
    (h : Kept t accounts) {role : Role} {q : UInt32} {r : Residency}
    (hr : role.account ((role.resends t).map (·.seqId)) (role.abandoned t) q (accounts q) =
      some r) :
    accounts q = some r ∨
    (∃ data qos dest now, role = .insert q data qos dest now ∧
      r = { data, qos, dest, lastSent := now }) ∨
    (∃ now old, role = .nack q now ∧ accounts q = some old ∧
      r = { old with
        lastSent := if q ∈ (role.resends t).map (·.seqId) then now else old.lastSent
        nacks := old.nacks + 1 }) ∨
    (∃ now sent old, role = .timeouts now sent ∧ accounts q = some old ∧
      exhausted (old.entry q) = false ∧
      r = { old with lastSent := sent q, timeouts := old.timeouts + 1 }) := by
  cases role with
  | none => exact .inl hr
  | insert seqId data qos resend now =>
      rw [Role.account] at hr
      split at hr
      · rename_i hq
        exact .inr (.inl ⟨data, qos, resend, now, by rw [hq], (Option.some.inj hr).symm⟩)
      · exact .inl hr
  | remove seqId =>
      rw [Role.account] at hr
      split at hr
      · cases hr
      · exact .inl hr
  | nack seqId now =>
      rw [Role.account] at hr
      split at hr
      · rename_i hq
        obtain ⟨old, hold, rfl⟩ := Option.map_eq_some_iff.mp hr
        exact .inr (.inr (.inl ⟨now, old, by rw [hq], hold, rfl⟩))
      · exact .inl hr
  | timeouts now sent =>
      rw [Role.account] at hr
      split at hr
      · cases hr
      · split at hr
        · rename_i hresent
          obtain ⟨old, hold, rfl⟩ := Option.map_eq_some_iff.mp hr
          obtain ⟨pm, hpm, -, hexhausted⟩ := h.mem_resentIds.mp hresent
          rw [h.lookup_of_account hold] at hpm
          cases hpm
          exact .inr (.inr (.inr ⟨now, sent, old, rfl, hold, hexhausted, rfl⟩))
        · exact .inl hr

/-- What holds of the ledger after any calls. -/
structure Sound (s : Ledger) : Prop where
  kept : ∀ phase, Kept (s.engine.table phase) (s.accounts phase)
  lastSent : ∀ phase q r, s.accounts phase q = some r → r.lastSent ≤ s.clock
  timeouts : ∀ phase q r, s.accounts phase q = some r →
    r.nacks + r.qos.maxRetries.toNat < 2 ^ 32 → r.timeouts ≤ r.qos.maxRetries.toNat

/-- While the counter has not wrapped, an entry that is not given up has retries left. -/
theorem timeouts_lt_of_not_exhausted {q : UInt32} {r : Residency}
    (hexhausted : exhausted (r.entry q) = false) (hle : r.timeouts ≤ r.qos.maxRetries.toNat)
    (hnacks : r.nacks + r.qos.maxRetries.toNat < 2 ^ 32) :
    r.timeouts < r.qos.maxRetries.toNat := by
  have hlt : ¬r.qos.maxRetries ≤ UInt32.ofNat (r.timeouts + r.nacks) :=
    of_decide_eq_false hexhausted
  have hcount : (UInt32.ofNat (r.timeouts + r.nacks)).toNat = r.timeouts + r.nacks :=
    UInt32.toNat_ofNat_of_lt' (by simp only [UInt32.size]; omega)
  rw [UInt32.le_iff_toNat_le, hcount] at hlt
  omega

/-- The accounts after a call, as its roles make them. -/
theorem next_accounts (s : Ledger) (l : Timed) (phase : Phase) (q : UInt32) :
    (accounting.next s l).accounts phase q =
      (l.call.role phase).account
        (((l.call.role phase).resends (s.engine.table phase)).map (·.seqId))
        ((l.call.role phase).abandoned (s.engine.table phase)) q (s.accounts phase q) := by
  rw [← resends_exec, ← abandoned_exec]
  rfl

namespace Sound

variable {s : Ledger} (h : Sound s) {l : Timed} (hl : l.call.Within s.clock l.stop)
include h

theorem next_kept (phase : Phase) :
    Kept ((accounting.next s l).engine.table phase) ((accounting.next s l).accounts phase) := by
  intro q
  change ((exec l.call s.engine).1.table phase).lookup q = _
  rw [lookup_exec, (h.kept phase).entry_eq, next_accounts]

include hl

theorem next : Sound (accounting.next s l) := by
  refine ⟨fun phase => h.next_kept phase, fun phase q r hr => ?_, fun phase q r hr hnacks => ?_⟩
  · have hrole := hl.role phase
    rw [next_accounts] at hr
    change r.lastSent ≤ l.stop
    obtain hold | ⟨_, _, _, now, heq, rfl⟩ | ⟨now, old, heq, hold, rfl⟩ |
      ⟨now, sent, old, heq, hold, -, rfl⟩ := (h.kept phase).account_cases hr
    · exact Int.le_trans (h.lastSent phase q r hold) hl.le
    · rw [heq] at hrole
      exact hrole
    · rw [heq] at hrole
      dsimp only
      split
      · exact hrole
      · exact Int.le_trans (h.lastSent phase q old hold) hl.le
    · rw [heq] at hrole
      exact hrole.2 q
  · rw [next_accounts] at hr
    obtain hold | ⟨_, _, _, now, heq, rfl⟩ | ⟨now, old, heq, hold, rfl⟩ |
      ⟨now, sent, old, heq, hold, hexhausted, rfl⟩ := (h.kept phase).account_cases hr
    · exact h.timeouts phase q r hold hnacks
    · exact Nat.zero_le _
    · exact h.timeouts phase q old hold (by dsimp only at hnacks; omega)
    · exact timeouts_lt_of_not_exhausted hexhausted (h.timeouts phase q old hold hnacks) hnacks

end Sound

theorem sound_of_reachable {s : Ledger} (h : accounting.Reachable s) : Sound s := by
  refine h.invariant (fun s hinit => ?_) fun s l _ hs henabled => hs.next henabled
  obtain ⟨hengine, haccounts⟩ := hinit
  refine ⟨fun phase q => ?_, fun phase q r hr => ?_, fun phase q r hr => ?_⟩
  · rw [hengine, haccounts]
    cases phase <;> rfl
  · rw [haccounts] at hr
    cases hr
  · rw [haccounts] at hr
    cases hr

/-! ### The accounts add up -/

theorem Kept.resends_mem {t : Table UInt32 PendingMsg} {accounts : UInt32 → Option Residency}
    (h : Kept t accounts) {role : Role} {x : Resend} (hx : x ∈ role.resends t) :
    ∃ q r, accounts q = some r ∧ x = resendOf (r.entry q) := by
  have hentry : ∃ q pm, t.lookup q = some pm ∧ x = resendOf pm := by
    cases role with
    | insert | remove | none => exact absurd hx List.not_mem_nil
    | nack seqId now =>
        obtain ⟨pm, hpm, rfl⟩ := Option.map_eq_some_iff.mp (Option.mem_toList.mp hx)
        exact ⟨seqId, pm, hpm, rfl⟩
    | timeouts now sent =>
        obtain ⟨q, pm, hpm, -, -, rfl⟩ := (mem_sweep_resends now sent).mp hx
        exact ⟨q, pm, hpm, rfl⟩
  obtain ⟨q, pm, hpm, rfl⟩ := hentry
  rw [h q] at hpm
  obtain ⟨r, hr, rfl⟩ := Option.map_eq_some_iff.mp hpm
  exact ⟨q, r, hr, rfl⟩

/-- Time that has passed, in whole milliseconds. -/
theorem elapsed_of_due {now : Int} {pm : PendingMsg} (hdue : due now pm = true)
    (hle : pm.lastSent ≤ now) :
    (pm.retryIntervalMs.toNat : Int) * 1000000 ≤ now - pm.lastSent := by
  have hinterval := of_decide_eq_true hdue
  rw [Int.tdiv_eq_ediv_of_nonneg (by omega)] at hinterval
  exact (Int.le_ediv_iff_mul_le (by decide)).mp hinterval

/-- An entry is removed, replaced or given up, or it stays with its bytes. -/
theorem Kept.removed {t : Table UInt32 PendingMsg} {accounts : UInt32 → Option Residency}
    (h : Kept t accounts) (role : Role) {q : UInt32} {pm : PendingMsg}
    (hpm : t.lookup q = some pm) :
    role = .remove q ∨
    (∃ data qos dest now, role = .insert q data qos dest now) ∨
    (∃ now sent, role = .timeouts now sent ∧ due now pm = true ∧ pm.maxRetries ≤ pm.retryCount ∧
      role.entry q (some pm) = Option.none ∧ (role.abandoned t).count q = 1) ∨
    (q ∉ role.abandoned t ∧ ∃ pm', role.entry q (some pm) = some pm' ∧
      pm'.data = pm.data ∧ pm'.resend = pm.resend) := by
  cases role with
  | none => exact .inr (.inr (.inr ⟨List.not_mem_nil, pm, rfl, rfl, rfl⟩))
  | insert seqId data qos resend now =>
      by_cases hq : q = seqId
      · exact .inr (.inl ⟨data, qos, resend, now, by rw [hq]⟩)
      · exact .inr (.inr (.inr ⟨List.not_mem_nil, pm, if_neg hq, rfl, rfl⟩))
  | remove seqId =>
      by_cases hq : q = seqId
      · exact .inl (by rw [hq])
      · exact .inr (.inr (.inr ⟨List.not_mem_nil, pm, if_neg hq, rfl, rfl⟩))
  | nack seqId now =>
      by_cases hq : q = seqId
      · exact .inr (.inr (.inr ⟨List.not_mem_nil, retry pm now, if_pos hq, rfl, rfl⟩))
      · exact .inr (.inr (.inr ⟨List.not_mem_nil, pm, if_neg hq, rfl, rfl⟩))
  | timeouts now sent =>
      have hsweep : (Role.timeouts now sent).entry q (some pm) = sweepEntry now sent pm := rfl
      rw [hsweep, sweepEntry]
      by_cases hdue : due now pm = true
      · by_cases hexhausted : exhausted pm = true
        · refine .inr (.inr (.inl ⟨now, sent, rfl, hdue, of_decide_eq_true hexhausted, ?_, ?_⟩))
          · rw [if_pos hdue, if_pos hexhausted]
          · change (sweep t now sent).abandoned.count q = 1
            rw [h.abandoned_eq,
              Table.count_selected t (fun pm => (due now pm && exhausted pm) = true), hpm]
            simp [hdue, hexhausted]
        · refine .inr (.inr (.inr ⟨fun hmem => ?_, retry pm (sent pm.seqId), ?_, rfl, rfl⟩))
          · obtain ⟨pm', hpm', -, hyes⟩ := h.mem_abandoned.mp hmem
            rw [hpm] at hpm'
            cases hpm'
            exact hexhausted hyes
          · rw [if_pos hdue, if_neg hexhausted]
      · refine .inr (.inr (.inr ⟨fun hmem => ?_, pm, if_neg hdue, rfl, rfl⟩))
        obtain ⟨pm', hpm', hyes, -⟩ := h.mem_abandoned.mp hmem
        rw [hpm] at hpm'
        cases hpm'
        exact hdue hyes

/-- In every run, every entry of either table is sent again and removed as it should be. The
retries and the NACKs of an entry share a counter that must not wrap. -/
theorem accounted_of_reachable {s : Ledger} (h : accounting.Reachable s) {l : Timed}
    (hl : l.call.Within s.clock l.stop) (phase : Phase) (q : UInt32) :
    Accounted (fun r => 2 ^ 32 - r.qos.maxRetries.toNat) s l phase q := by
  have hs := sound_of_reachable h
  refine ⟨hs.kept phase q, fun x hx => ?_, fun now sent heq => ?_, fun r hr hnacks => ?_,
    fun pm hpm => ?_⟩
  · rw [resends_exec] at hx
    obtain ⟨q', r, hr, rfl⟩ := (hs.kept phase).resends_mem hx
    exact ⟨r, hr, rfl, rfl⟩
  · rw [Answer.resentIds, resends_exec, heq, role_processTimeouts, Role.resends]
    rw [heq] at hl
    refine ⟨?_, fun r hmem hr => ?_⟩
    · rw [(hs.kept phase).resentIds_eq,
        Table.count_selected _ (fun pm => (due now pm && !exhausted pm) = true)]
      exact Bool.toNat_le _
    · obtain ⟨pm, hpm, hdue, -⟩ := (hs.kept phase).mem_resentIds.mp hmem
      rw [(hs.kept phase).lookup_of_account hr] at hpm
      cases hpm
      have hle : (r.entry q).lastSent ≤ now := Int.le_trans (hs.lastSent phase q r hr) hl.1
      exact @elapsed_of_due now (r.entry q) hdue hle
  · exact (hs.next hl).timeouts phase q r hr (by omega)
  · rw [lookup_exec, abandoned_exec, hpm]
    exact (hs.kept phase).removed _ hpm

/-- The engine with one frame. -/
def inserted (seqId : UInt32) (qos : QoSProfile) : Ledger :=
  accounting.next { clock := 0 }
    ⟨.addPending seqId [] qos { address := [], transportType := [] } 0, 0⟩

theorem reachable_inserted (seqId : UInt32) (qos : QoSProfile) :
    accounting.Reachable (inserted seqId qos) := by
  have hinit : accounting.Reachable { clock := 0 } := .init ⟨rfl, rfl⟩
  have hwithin : Call.Within 0 0
      (.addPending seqId [] qos { address := [], transportType := [] } 0) :=
    ⟨Int.le_refl 0, Int.le_refl 0⟩
  exact hinit.step hwithin

/-- A frame that is sent again by a sweep. -/
theorem accounted_of_reachable_sweep :
    Accounted (fun r => 2 ^ 32 - r.qos.maxRetries.toNat) (inserted 5 {})
      ⟨.processTimeouts 1000000000 fun _ _ => 1000000000, 1000000000⟩ .publish 5 :=
  accounted_of_reachable (l := ⟨.processTimeouts 1000000000 fun _ _ => 1000000000, 1000000000⟩)
    (reachable_inserted 5 {})
    (And.intro (by decide) ⟨by decide, fun _ _ => ⟨Int.le_refl _, Int.le_refl _⟩⟩) .publish 5

/-! ### The counter at its end -/

section Counter

variable {s : Ledger} (h : Sound s) {q : UInt32} {r : Residency}
  (hr : s.accounts .publish q = some r)
include h hr

theorem account_timeout {now stop : Int} {sent : Phase → UInt32 → Int}
    (hdue : due now (r.entry q) = true) (hexhausted : exhausted (r.entry q) = false) :
    (accounting.next s ⟨.processTimeouts now sent, stop⟩).accounts .publish q =
      some { r with lastSent := sent .publish q, timeouts := r.timeouts + 1 } := by
  have hlookup := (h.kept .publish).lookup_of_account hr
  have hkeep : q ∉ (sweep (s.engine.table .publish) now (sent .publish)).abandoned := by
    rw [(h.kept .publish).mem_abandoned, hlookup]
    simp [hexhausted]
  have hagain :
      q ∈ (sweep (s.engine.table .publish) now (sent .publish)).resends.map (·.seqId) :=
    (h.kept .publish).mem_resentIds.mpr ⟨_, hlookup, hdue, hexhausted⟩
  rw [next_accounts, role_processTimeouts, Role.account, Role.abandoned, Role.resends,
    if_neg hkeep, if_pos hagain, hr]
  rfl

theorem account_nack {now stop : Int} :
    (accounting.next s ⟨.onNack q now, stop⟩).accounts .publish q =
      some { r with lastSent := now, nacks := r.nacks + 1 } := by
  have hresent : q ∈ ((Role.nack q now).resends (s.engine.table .publish)).map (·.seqId) := by
    rw [Role.resends, (h.kept .publish).lookup_of_account hr]
    exact List.mem_singleton_self q
  have hrole : (Timed.mk (.onNack q now) stop).call.role .publish = .nack q now := rfl
  rw [next_accounts, hrole, Role.account, if_pos rfl, hr, Option.map_some, if_pos hresent]

end Counter

/-- One retry, at once. -/
def retryOnce : QoSProfile := { maxRetries := 1, retryIntervalMs := 0 }

/-- After one retry, an entry may get any number of NACKs. -/
theorem exists_nacks (n : Nat) :
    ∃ s r, accounting.Reachable s ∧ s.clock = 0 ∧ s.accounts .publish 0 = some r ∧
      r.qos = retryOnce ∧ r.lastSent = 0 ∧ r.timeouts = 1 ∧ r.nacks = n := by
  induction n with
  | zero =>
      have hreach := reachable_inserted 0 retryOnce
      have hwithin : accounting.enabled (inserted 0 retryOnce)
          ⟨.processTimeouts 0 fun _ _ => 0, 0⟩ :=
        And.intro (Int.le_refl 0)
          ⟨Int.le_refl 0, fun _ _ => ⟨Int.le_refl 0, Int.le_refl 0⟩⟩
      exact ⟨_, _, hreach.step hwithin, rfl,
        account_timeout (sound_of_reachable hreach) rfl (by decide) (by decide),
        rfl, rfl, rfl, rfl⟩
  | succ n ih =>
      obtain ⟨s, r, hreach, hclock, hr, hqos, hlast, htimeouts, hnacks⟩ := ih
      have hwithin : accounting.enabled s ⟨.onNack 0 0, 0⟩ :=
        And.intro (by rw [hclock]) (Int.le_refl 0)
      exact ⟨_, _, hreach.step hwithin, rfl, account_nack (sound_of_reachable hreach) hr, hqos, rfl,
        htimeouts, by rw [← hnacks]⟩

/-- With `2 ^ 32 - 1` NACKs after the only retry, the counter is at zero again, and the next
sweep sends the frame once more. -/
theorem accounted_nacks :
    ¬∀ s l phase q, accounting.Reachable s → l.call.Within s.clock l.stop →
      Accounted (fun _ => 2 ^ 32) s l phase q := by
  intro hall
  obtain ⟨s, r, hreach, hclock, hr, hqos, hlast, htimeouts, hnacks⟩ := exists_nacks (2 ^ 32 - 1)
  have hdue : due 0 (r.entry 0) = true := by
    simp [due, Residency.entry, make, hqos, hlast, retryOnce]
  have hexhausted : exhausted (r.entry 0) = false := by
    simp [exhausted, Residency.entry, make, hqos, htimeouts, hnacks, retryOnce]
  have hnext := @account_timeout s (sound_of_reachable hreach) 0 r hr 0 0 (fun _ _ => 0) hdue
    hexhausted
  have hwithin : (Call.processTimeouts 0 fun _ _ => 0).Within s.clock 0 := by
    rw [hclock]
    exact ⟨Int.le_refl 0, Int.le_refl 0, fun _ _ => ⟨Int.le_refl 0, Int.le_refl 0⟩⟩
  have hle := (hall s ⟨.processTimeouts 0 fun _ _ => 0, 0⟩ .publish 0 hreach hwithin).bounded _
    hnext (by rw [hnacks]; decide)
  rw [hqos, htimeouts] at hle
  exact absurd hle (by simp [retryOnce])

end QoSEngine

end EmbedMq
