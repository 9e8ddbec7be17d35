import EmbedMq.Discovery.Staleness
import Mathlib.Computability.Language
import Mathlib.Order.CompletePartialOrder

/-!
# What is called back about a peer

Calls of the registry that do not overlap. Seen from one peer, a call takes the record of
that peer to the record afterwards and runs some callbacks for it, whatever the other
records are: `onPeer`. The records and callbacks of a whole history follow from that
peer by peer.

A session of a peer begins when it is discovered and ends when it is lost. What is
remembered about the peer in between is its latest announcement, and the time it was last
heard of.
-/

namespace EmbedMq

open scoped Computability

namespace PeerRegistry

/-- Calls that are made one after the other. -/
def runAll (now : Int) : List Call → PeerRegistry → PeerRegistry × List PeerCallback
  | [], reg => (reg, [])
  | call :: rest, reg =>
      let (after, callbacks, _) := reg.enter now call
      let (final, more) := runAll now rest after
      (final, callbacks ++ more)

/-- A whole call: its section, and the calls that it makes afterwards. -/
def perform (now : Int) (call : Call) (reg : PeerRegistry) : PeerRegistry × List PeerCallback :=
  let (after, callbacks, calls) := reg.enter now call
  let (final, more) := runAll now calls after
  (final, callbacks ++ more)

theorem alone_removals (now : Int) (ids : List UInt16) (reg : PeerRegistry) :
    Threads.Alone run now (ids.map fun id => .remove id true) reg
      (runAll now (ids.map fun id => .remove id true) reg).1
      (runAll now (ids.map fun id => .remove id true) reg).2 := by
  induction ids generalizing reg with
  | nil => exact .nil reg
  | cons id rest ih => exact .cons (ih _)

/-- `perform` is a call of the registry threads that runs alone. -/
theorem alone_perform (now : Int) (call : Call) (reg : PeerRegistry) :
    Threads.Alone run now [call] reg (perform now call reg).1 (perform now call reg).2 := by
  refine Threads.Alone.single ?_
  cases call with
  | checkTimeouts timeoutMs => exact alone_removals now _ reg
  | _ => exact .nil _

/-! ### One peer -/

/-- The callbacks of an announcement. -/
def arrival (peer : PeerInfo) : Option PeerRecord → List PeerCallback
  | none => [.discovered peer]
  | some old => if changed old.info peer then [.updated peer] else []

/-- The callbacks of a removal. -/
def removal (triggerWill : Bool) (id : UInt16) : Option PeerRecord → List PeerCallback
  | none => []
  | some rec =>
      (if triggerWill && rec.info.hasWill then [.will rec.info] else []) ++
        [.lost id rec.info.name]

/-- More than the timeout has passed, in whole milliseconds, since the peer was heard of. -/
def Silent (now : Int) (timeoutMs : UInt32) (lastSeen : Int) : Prop :=
  (timeoutMs.toNat : Int) < (now - lastSeen).tdiv MessageBus.millisecond

instance (now : Int) (timeoutMs : UInt32) (lastSeen : Int) :
    Decidable (Silent now timeoutMs lastSeen) :=
  inferInstanceAs (Decidable (_ < _))

/-- What a call does to the record of one peer, and the callbacks about that peer. -/
def onPeer (id : UInt16) (now : Int) :
    Call → Option PeerRecord → Option PeerRecord × List PeerCallback
  | .addOrUpdate peer, old =>
      if peer.id = id then (some ⟨peer, now⟩, arrival peer old) else (old, [])
  | .remove peerId triggerWill, old =>
      if peerId = id then (none, removal triggerWill id old) else (old, [])
  | .checkTimeouts timeoutMs, old =>
      if old.any fun rec => decide (Silent now timeoutMs rec.lastSeen) then
        (none, removal true id old)
      else (old, [])
  | .heartbeat peerId, old =>
      if peerId = id then (old.map fun rec => { rec with lastSeen := now }, []) else (old, [])

/-- Every record is filed under the id of its peer. -/
def Keyed (reg : PeerRegistry) : Prop :=
  ∀ id rec, reg.records.lookup id = some rec → rec.info.id = id

/-- The callbacks about one peer. -/
def about (id : UInt16) (callbacks : List PeerCallback) : List PeerCallback :=
  callbacks.filter fun callback => callback.peerId = id

theorem about_append (id : UInt16) (callbacks more : List PeerCallback) :
    about id (callbacks ++ more) = about id callbacks ++ about id more :=
  List.filter_append _ _

variable {now : Int} {reg : PeerRegistry} {id : UInt16}

theorem about_arrival (peer : PeerInfo) (old : Option PeerRecord) :
    about id (arrival peer old) = if peer.id = id then arrival peer old else [] := by
  have hall : ∀ callback ∈ arrival peer old, callback.peerId = peer.id := by
    intro callback hmem
    cases old with
    | none => rw [List.mem_singleton.mp hmem, PeerCallback.peerId]
    | some old =>
        simp only [arrival] at hmem
        split at hmem
        · rw [List.mem_singleton.mp hmem, PeerCallback.peerId]
        · exact absurd hmem List.not_mem_nil
  split
  · rename_i heq
    refine List.filter_eq_self.mpr fun callback hmem => ?_
    rw [hall callback hmem, decide_eq_true heq]
  · rename_i hne
    refine List.filter_eq_nil_iff.mpr fun callback hmem => ?_
    rw [hall callback hmem, decide_eq_false hne]
    exact Bool.false_ne_true

theorem about_removal (hkeyed : reg.Keyed) (triggerWill : Bool) (peerId : UInt16) :
    about id (removal triggerWill peerId (reg.records.lookup peerId)) =
      if peerId = id then removal triggerWill id (reg.records.lookup id) else [] := by
  cases hlookup : reg.records.lookup peerId with
  | none =>
      split
      · rename_i heq
        rw [← heq, hlookup]
        rfl
      · rfl
  | some rec =>
      have hid := hkeyed peerId rec hlookup
      split
      · rename_i heq
        subst heq
        rw [hlookup]
        simp only [removal]
        split
        · simp [about, PeerCallback.peerId, hid]
        · simp [about, PeerCallback.peerId]
      · rename_i hne
        simp only [removal]
        split
        · simp [about, PeerCallback.peerId, hid, hne]
        · simp [about, PeerCallback.peerId, hne]

theorem addOrUpdate_callbacks (peer : PeerInfo) :
    (reg.addOrUpdate now peer).2 = arrival peer (reg.records.lookup peer.id) := by
  rw [addOrUpdate]
  cases reg.records.lookup peer.id with
  | none => rfl
  | some old => rfl

theorem lookup_addOrUpdate (peer : PeerInfo) :
    (reg.addOrUpdate now peer).1.records.lookup id =
      if peer.id = id then some ⟨peer, now⟩ else reg.records.lookup id := by
  have hrecords : (reg.addOrUpdate now peer).1.records
      = reg.records.insert peer.id ⟨peer, now⟩ := by
    simp only [addOrUpdate]
    split <;> rfl
  rw [hrecords, Table.lookup_insert_eq]
  simp only [eq_comm]

theorem remove_callbacks (peerId : UInt16) (triggerWill : Bool) :
    (reg.remove peerId triggerWill).2 = removal triggerWill peerId (reg.records.lookup peerId) := by
  rw [remove]
  cases reg.records.lookup peerId with
  | none => rfl
  | some rec => rfl

theorem lookup_remove (peerId : UInt16) (triggerWill : Bool) :
    (reg.remove peerId triggerWill).1.records.lookup id =
      if peerId = id then none else reg.records.lookup id := by
  simp only [remove]
  split
  · rename_i hnone
    split
    · rename_i heq
      rw [← heq, hnone]
    · rfl
  · rw [Table.lookup_erase_eq]
    simp only [eq_comm]

theorem keyed_remove (hkeyed : reg.Keyed) (peerId : UInt16) (triggerWill : Bool) :
    (reg.remove peerId triggerWill).1.Keyed := by
  intro id rec hrec
  rw [lookup_remove] at hrec
  split at hrec
  · cases hrec
  · exact hkeyed id rec hrec

/-- The peers of a list are removed, each once. -/
theorem runAll_remove (hkeyed : reg.Keyed) (ids : List UInt16) (id : UInt16) :
    (runAll now (ids.map fun peerId => .remove peerId true) reg).1.records.lookup id =
        (if id ∈ ids then none else reg.records.lookup id) ∧
      about id (runAll now (ids.map fun peerId => .remove peerId true) reg).2 =
        (if id ∈ ids then removal true id (reg.records.lookup id) else []) ∧
      (runAll now (ids.map fun peerId => .remove peerId true) reg).1.Keyed := by
  induction ids generalizing reg with
  | nil => exact ⟨rfl, rfl, hkeyed⟩
  | cons peerId rest ih =>
      obtain ⟨hlookup, habout, hafter⟩ := ih (keyed_remove hkeyed peerId true)
      rw [lookup_remove] at hlookup habout
      simp only [List.map_cons, runAll, enter]
      refine ⟨?_, ?_, hafter⟩
      · rw [hlookup]
        by_cases heq : peerId = id
        · simp [heq]
        · simp [heq, Ne.symm heq]
      · rw [about_append, habout, remove_callbacks, about_removal hkeyed]
        by_cases heq : peerId = id
        · simp [heq, removal]
        · simp [heq, Ne.symm heq]

theorem mem_dead_iff {timeoutMs : UInt32} :
    id ∈ reg.dead now timeoutMs ↔
      (reg.records.lookup id).any (fun rec => decide (Silent now timeoutMs rec.lastSeen))
        = true := by
  have hmem : id ∈ reg.dead now timeoutMs ↔
      ∃ rec, reg.records.lookup id = some rec ∧ Silent now timeoutMs rec.lastSeen :=
    Table.mem_selected (p := fun rec : PeerRecord => Silent now timeoutMs rec.lastSeen)
  rw [hmem]
  cases reg.records.lookup id with
  | none => simp
  | some rec => simp

/-- A call acts on each peer on its own. -/
theorem keyed_addOrUpdate (hkeyed : reg.Keyed) (now : Int) (peer : PeerInfo) :
    (reg.addOrUpdate now peer).1.Keyed := by
  intro id rec hrec
  rw [lookup_addOrUpdate] at hrec
  split at hrec
  · rename_i heq
    obtain rfl := Option.some.inj hrec
    exact heq
  · exact hkeyed id rec hrec

theorem lookup_heartbeat (now : Int) (peerId id : UInt16) :
    (perform now (.heartbeat peerId) reg).1.records.lookup id =
      (onPeer id now (.heartbeat peerId) (reg.records.lookup id)).1 := by
  simp only [perform, enter, heartbeat, runAll, onPeer]
  by_cases heq : peerId = id
  · rw [if_pos heq, ← heq]
    split
    · rename_i hnone
      rw [hnone]
      rfl
    · rename_i rec hrec
      rw [hrec, Table.lookup_insert_eq, if_pos rfl]
      rfl
  · rw [if_neg heq]
    split
    · rfl
    · rw [Table.lookup_insert_eq, if_neg (Ne.symm heq)]

theorem keyed_heartbeat (hkeyed : reg.Keyed) (now : Int) (peerId : UInt16) :
    (perform now (.heartbeat peerId) reg).1.Keyed := by
  intro id rec hrec
  rw [lookup_heartbeat, onPeer] at hrec
  split at hrec
  · obtain ⟨old, hold, rfl⟩ := Option.map_eq_some_iff.mp hrec
    exact hkeyed id old hold
  · exact hkeyed id rec hrec

theorem perform_onPeer (hkeyed : reg.Keyed) (now : Int) (call : Call) (id : UInt16) :
    (perform now call reg).1.records.lookup id = (onPeer id now call (reg.records.lookup id)).1 ∧
      about id (perform now call reg).2 = (onPeer id now call (reg.records.lookup id)).2 ∧
      (perform now call reg).1.Keyed := by
  cases call with
  | addOrUpdate peer =>
      have hperform : perform now (.addOrUpdate peer) reg = reg.addOrUpdate now peer := by
        simp only [perform, enter, runAll, List.append_nil]
      rw [hperform, lookup_addOrUpdate, addOrUpdate_callbacks, about_arrival, onPeer]
      refine ⟨?_, ?_, keyed_addOrUpdate hkeyed now peer⟩
      · split <;> rfl
      · split
        · rename_i heq
          rw [heq]
        · rfl
  | remove peerId triggerWill =>
      have hperform : perform now (.remove peerId triggerWill) reg
          = reg.remove peerId triggerWill := by
        simp only [perform, enter, runAll, List.append_nil]
      rw [hperform, lookup_remove, remove_callbacks, about_removal hkeyed, onPeer]
      refine ⟨?_, ?_, keyed_remove hkeyed peerId triggerWill⟩
      · split <;> rfl
      · split <;> rfl
  | checkTimeouts timeoutMs =>
      have hall := @runAll_remove now reg hkeyed (reg.dead now timeoutMs) id
      simp only [mem_dead_iff] at hall
      obtain ⟨hlookup, habout, hafter⟩ := hall
      simp only [perform, enter, List.nil_append]
      rw [hlookup, habout, onPeer]
      refine ⟨?_, ?_, hafter⟩
      · split <;> rfl
      · split <;> rfl
  | heartbeat peerId =>
      refine ⟨lookup_heartbeat now peerId id, ?_, keyed_heartbeat hkeyed now peerId⟩
      simp only [perform, enter, runAll, List.append_nil, onPeer]
      split <;> rfl

/-! ### Histories -/

/-- A call, and what the clock shows during it. -/
structure TimedCall where
  now : Int
  call : Call

def record (s : PeerRegistry × List PeerCallback) (c : TimedCall) :
    PeerRegistry × List PeerCallback :=
  let (after, callbacks) := s.1.perform c.now c.call
  (after, s.2 ++ callbacks)

/-- The registry after some calls, and all the callbacks so far. -/
def history (calls : List TimedCall) : PeerRegistry × List PeerCallback :=
  calls.foldl record ({}, [])

/-- The callbacks of a call after some others. -/
def callbacksOf (calls : List TimedCall) (c : TimedCall) : List PeerCallback :=
  ((history calls).1.perform c.now c.call).2

/-- The record of a peer after some calls. -/
def recordOf (calls : List TimedCall) (id : UInt16) : Option PeerRecord :=
  (history calls).1.records.lookup id

/-- The call announces the peer. -/
def announces (id : UInt16) (c : TimedCall) : Option PeerInfo :=
  match c.call with
  | .addOrUpdate peer => if peer.id = id then some peer else none
  | _ => none

/-- The latest announcement of a peer. -/
def latestInfo (id : UInt16) (calls : List TimedCall) : Option PeerInfo :=
  (calls.filterMap (announces id)).getLast?

/-- When a peer was last announced or sent a heartbeat. -/
def lastHeard (id : UInt16) (calls : List TimedCall) : Option Int :=
  ((calls.filter fun c => refreshes id c.call).map (·.now)).getLast?

theorem history_append (calls : List TimedCall) (c : TimedCall) :
    history (calls ++ [c]) = record (history calls) c := by
  rw [history, List.foldl_append]
  rfl

theorem keyed_history (calls : List TimedCall) : (history calls).1.Keyed := by
  induction calls using List.reverseRecOn with
  | nil =>
      intro id rec hrec
      cases hrec
  | append_singleton calls c ih =>
      rw [history_append]
      exact (perform_onPeer ih c.now c.call 0).2.2

theorem recordOf_append (calls : List TimedCall) (c : TimedCall) (id : UInt16) :
    recordOf (calls ++ [c]) id = (onPeer id c.now c.call (recordOf calls id)).1 := by
  rw [recordOf, history_append]
  exact (perform_onPeer (keyed_history calls) c.now c.call id).1

theorem about_callbacksOf (calls : List TimedCall) (c : TimedCall) (id : UInt16) :
    about id (callbacksOf calls c) = (onPeer id c.now c.call (recordOf calls id)).2 :=
  (perform_onPeer (keyed_history calls) c.now c.call id).2.1

theorem about_history_append (calls : List TimedCall) (c : TimedCall) (id : UInt16) :
    about id (history (calls ++ [c])).2 =
      about id (history calls).2 ++ (onPeer id c.now c.call (recordOf calls id)).2 := by
  rw [history_append, ← about_callbacksOf]
  exact about_append id _ _

/-- A callback runs in a call if and only if it runs for its own peer. -/
theorem mem_callbacksOf {calls : List TimedCall} {c : TimedCall} {callback : PeerCallback} :
    callback ∈ callbacksOf calls c ↔ callback ∈
      (onPeer callback.peerId c.now c.call (recordOf calls callback.peerId)).2 := by
  rw [← about_callbacksOf, about, List.mem_filter, decide_eq_true rfl]
  exact (and_iff_left rfl).symm

/-! ### What is remembered -/

theorem latestInfo_append (calls : List TimedCall) (c : TimedCall) :
    latestInfo id (calls ++ [c]) = (announces id c).or (latestInfo id calls) := by
  rw [latestInfo, List.filterMap_append, List.getLast?_append]
  cases hannounces : announces id c with
  | none => simp [hannounces, latestInfo]
  | some peer => simp [hannounces]

theorem lastHeard_append (calls : List TimedCall) (c : TimedCall) :
    lastHeard id (calls ++ [c]) =
      if refreshes id c.call then some c.now else lastHeard id calls := by
  rw [lastHeard, List.filter_append, List.map_append, List.getLast?_append]
  cases hrefreshes : refreshes id c.call with
  | false => simp [hrefreshes, lastHeard]
  | true => simp [hrefreshes]

/-- A record holds the latest announcement of its peer, and the time it was last heard of. -/
theorem recordOf_eq {calls : List TimedCall} {rec : PeerRecord} (h : recordOf calls id = some rec) :
    latestInfo id calls = some rec.info ∧ lastHeard id calls = some rec.lastSeen := by
  induction calls using List.reverseRecOn generalizing rec with
  | nil => cases h
  | append_singleton calls c ih =>
      rw [recordOf_append] at h
      rw [latestInfo_append, lastHeard_append]
      obtain ⟨now, call⟩ := c
      cases call with
      | addOrUpdate peer =>
          simp only [onPeer, announces, refreshes] at h ⊢
          by_cases heq : peer.id = id
          · rw [if_pos heq] at h
            obtain rfl := Option.some.inj h
            simp [heq]
          · rw [if_neg heq] at h
            simp only [heq, if_false, Option.none_or, decide_false, Bool.false_eq_true]
            exact ih h
      | remove peerId triggerWill =>
          simp only [onPeer] at h
          split at h
          · cases h
          · exact ih h
      | checkTimeouts timeoutMs =>
          simp only [onPeer] at h
          split at h
          · cases h
          · exact ih h
      | heartbeat peerId =>
          simp only [onPeer, refreshes] at h ⊢
          by_cases heq : peerId = id
          · rw [if_pos heq] at h
            obtain ⟨old, hold, rfl⟩ := Option.map_eq_some_iff.mp h
            simp only [heq, decide_true, if_true]
            exact ⟨(ih hold).1, trivial⟩
          · rw [if_neg heq] at h
            simp only [heq, decide_false, Bool.false_eq_true, if_false]
            exact ih h

/-! ### Sessions -/

/-- What a callback reports. -/
inductive Report where
  | discovered
  | updated
  | will
  | lost
  deriving DecidableEq

def reportOf : PeerCallback → Report
  | .discovered _ => .discovered
  | .updated _ => .updated
  | .will _ => .will
  | .lost _ _ => .lost

/-- The peer was discovered, and possibly updated. -/
def opened : Language Report := {[.discovered]} * {[.updated]}∗

/-- The peer was lost, with or without its will. -/
def farewell : Language Report := {[.will, .lost], [.lost]}

/-- Sessions of a peer; only the last one may be open. -/
def sessions : Language Report := (opened * farewell)∗ * (1 + opened)

theorem mem_of_le {l m : Language Report} (h : l ≤ m) {reports : List Report}
    (hmem : reports ∈ l) : reports ∈ m := by
  rw [← (Language.le_iff l m).mp h]
  exact Or.inl hmem

theorem opened_discovered : [Report.discovered] ∈ opened :=
  Language.append_mem_mul (Set.mem_singleton _) (Language.nil_mem_kstar _)

theorem opened_updated {reports : List Report} (h : reports ∈ opened) :
    reports ++ [Report.updated] ∈ opened := by
  have hupdated : [Report.updated] ∈ ({[Report.updated]} : Language Report) := Set.mem_singleton _
  have hmem := Language.append_mem_mul h hupdated
  rw [opened, mul_assoc] at hmem
  exact mem_of_le (mul_le_mul_right kstar_mul_le_kstar _) hmem

/-- What has been reported so far, for a peer with or without a record. -/
def Reported (present : Bool) (reports : List Report) : Prop :=
  reports ∈ if present then (opened * farewell)∗ * opened else (opened * farewell)∗

theorem Reported.sessions {present : Bool} {reports : List Report} (h : Reported present reports) :
    reports ∈ sessions := by
  rw [PeerRegistry.sessions, mul_add, mul_one]
  cases present with
  | false => exact Or.inl h
  | true => exact Or.inr h

theorem Reported.discovered {reports : List Report} (h : Reported false reports) :
    Reported true (reports ++ [.discovered]) :=
  Language.append_mem_mul h opened_discovered

theorem Reported.updated {reports : List Report} (h : Reported true reports) :
    Reported true (reports ++ [.updated]) := by
  obtain ⟨closed, hclosed, last, hlast, rfl⟩ := Language.mem_mul.mp h
  rw [List.append_assoc]
  exact Language.append_mem_mul hclosed (opened_updated hlast)

theorem Reported.lost {reports bye : List Report} (h : Reported true reports)
    (hbye : bye ∈ farewell) : Reported false (reports ++ bye) := by
  have hmem := Language.append_mem_mul h hbye
  rw [if_pos rfl, mul_assoc] at hmem
  exact mem_of_le kstar_mul_le_kstar hmem

/-- One call continues the reports about a peer. -/
theorem Reported.onPeer {calls : List TimedCall} {reports : List Report}
    (h : Reported (recordOf calls id).isSome reports) (now : Int) (call : Call) :
    Reported (onPeer id now call (recordOf calls id)).1.isSome
      (reports ++ (onPeer id now call (recordOf calls id)).2.map reportOf) := by
  have hgone : ∀ triggerWill, Reported false
      (reports ++ (removal triggerWill id (recordOf calls id)).map reportOf) := by
    intro triggerWill
    cases hrec : recordOf calls id with
    | none =>
        rw [hrec] at h
        rw [removal, List.map_nil, List.append_nil]
        exact h
    | some rec =>
        rw [hrec] at h
        refine Reported.lost h ?_
        simp only [removal]
        split
        · exact Or.inl rfl
        · exact Or.inr rfl
  have hsame : Reported (recordOf calls id).isSome
      (reports ++ ([] : List PeerCallback).map reportOf) := by
    rw [List.map_nil, List.append_nil]
    exact h
  cases call with
  | addOrUpdate peer =>
      simp only [PeerRegistry.onPeer]
      split
      · cases hrec : recordOf calls id with
        | none =>
            rw [hrec] at h
            exact Reported.discovered h
        | some old =>
            rw [hrec] at h
            simp only [arrival]
            split
            · exact Reported.updated h
            · rw [List.map_nil, List.append_nil]
              exact h
      · exact hsame
  | remove peerId triggerWill =>
      simp only [PeerRegistry.onPeer]
      split
      · exact hgone triggerWill
      · exact hsame
  | checkTimeouts timeoutMs =>
      simp only [PeerRegistry.onPeer]
      split
      · exact hgone true
      · exact hsame
  | heartbeat peerId =>
      simp only [PeerRegistry.onPeer]
      split
      · rw [Option.isSome_map]
        exact hsame
      · exact hsame

theorem reported_history (calls : List TimedCall) (id : UInt16) :
    Reported (recordOf calls id).isSome ((about id (history calls).2).map reportOf) := by
  induction calls using List.reverseRecOn with
  | nil => exact Language.nil_mem_kstar _
  | append_singleton calls c ih =>
      rw [recordOf_append, about_history_append, List.map_append]
      exact ih.onPeer c.now c.call

/-! ### The calls of a history -/

/-- What a call does after some others. A will is left by a removal that asks for it, and so by
every timeout. -/
structure FollowsUp (calls : List TimedCall) (c : TimedCall) : Prop where
  updated : ∀ peer, .updated peer ∈ callbacksOf calls c ↔ c.call = .addOrUpdate peer ∧
    ∃ old, recordOf calls peer.id = some old ∧
      (old.info.subscribedTopics ≠ peer.subscribedTopics ∨
        old.info.publishedTopics ≠ peer.publishedTopics ∨ old.info.endpoints ≠ peer.endpoints)
  will : ∀ peer, .will peer ∈ callbacksOf calls c ↔
    latestInfo peer.id calls = some peer ∧ peer.hasWill = true ∧
      (recordOf calls peer.id).isSome = true ∧
      (c.call = .remove peer.id true ∨ ∃ timeoutMs, c.call = .checkTimeouts timeoutMs ∧
        recordOf (calls ++ [c]) peer.id = none)
  timeout : ∀ timeoutMs, c.call = .checkTimeouts timeoutMs →
    ∀ id, (recordOf calls id).isSome = true →
      (recordOf (calls ++ [c]) id = none ↔
        ∃ time, lastHeard id calls = some time ∧ Silent c.now timeoutMs time)

theorem timeout_iff {calls : List TimedCall} {now : Int} {timeoutMs : UInt32}
    (hsome : (recordOf calls id).isSome = true) :
    recordOf (calls ++ [⟨now, .checkTimeouts timeoutMs⟩]) id = none ↔
      ∃ time, lastHeard id calls = some time ∧ Silent now timeoutMs time := by
  obtain ⟨rec, hrec⟩ := Option.isSome_iff_exists.mp hsome
  rw [recordOf_append, onPeer, hrec, (recordOf_eq hrec).2]
  simp only [Option.any_some, decide_eq_true_iff]
  split
  · rename_i hsilent
    exact iff_of_true rfl ⟨rec.lastSeen, rfl, hsilent⟩
  · rename_i hsilent
    refine iff_of_false (by simp) ?_
    rintro ⟨time, htime, hold⟩
    rw [← Option.some.inj htime] at hold
    exact hsilent hold

theorem updated_iff (calls : List TimedCall) (c : TimedCall) (peer : PeerInfo) :
    .updated peer ∈ callbacksOf calls c ↔ c.call = .addOrUpdate peer ∧
      ∃ old, recordOf calls peer.id = some old ∧ changed old.info peer = true := by
  have hremoval : ∀ triggerWill id rec, .updated peer ∉ removal triggerWill id rec := by
    intro triggerWill id rec
    cases rec with
    | none => exact List.not_mem_nil
    | some rec =>
        simp only [removal]
        split <;> simp
  rw [mem_callbacksOf, PeerCallback.peerId]
  cases hcall : c.call with
  | addOrUpdate other =>
      simp only [onPeer]
      split
      · rename_i hid
        cases hrec : recordOf calls peer.id with
        | none => simp [arrival]
        | some old =>
            simp only [arrival]
            split
            · rename_i hchanged
              simp only [List.mem_singleton, PeerCallback.updated.injEq, Call.addOrUpdate.injEq]
              constructor
              · rintro rfl
                exact ⟨rfl, old, rfl, hchanged⟩
              · rintro ⟨rfl, _⟩
                rfl
            · rename_i hsame
              refine iff_of_false List.not_mem_nil ?_
              rintro ⟨hother, old', hold, hchanged⟩
              rw [← Option.some.inj hold, ← Call.addOrUpdate.inj hother] at hchanged
              exact hsame hchanged
      · rename_i hne
        refine iff_of_false List.not_mem_nil ?_
        rintro ⟨hother, _⟩
        exact hne (congrArg PeerInfo.id (Call.addOrUpdate.inj hother))
  | remove peerId triggerWill =>
      refine iff_of_false ?_ (by simp)
      simp only [onPeer]
      split
      · exact hremoval triggerWill _ _
      · exact List.not_mem_nil
  | checkTimeouts timeoutMs =>
      refine iff_of_false ?_ (by simp)
      simp only [onPeer]
      split
      · exact hremoval true _ _
      · exact List.not_mem_nil
  | heartbeat peerId =>
      refine iff_of_false ?_ (by simp)
      simp only [onPeer]
      split <;> exact List.not_mem_nil

theorem will_mem_removal {triggerWill : Bool} {peer : PeerInfo} {old : Option PeerRecord} :
    .will peer ∈ removal triggerWill id old ↔
      triggerWill = true ∧ peer.hasWill = true ∧ ∃ rec, old = some rec ∧ rec.info = peer := by
  cases old with
  | none => simp [removal]
  | some rec =>
      simp only [removal]
      split
      · rename_i hboth
        obtain ⟨htrigger, hwill⟩ := Bool.and_eq_true_iff.mp hboth
        simp only [List.singleton_append, List.mem_cons, PeerCallback.will.injEq, reduceCtorEq,
          List.not_mem_nil, or_false, Option.some.injEq, exists_eq_left']
        constructor
        · rintro rfl
          exact ⟨htrigger, hwill, rfl⟩
        · rintro ⟨_, _, rfl⟩
          rfl
      · rename_i hnot
        refine iff_of_false (by simp) ?_
        rintro ⟨htrigger, hwill, rec', hrec, rfl⟩
        rw [← Option.some.inj hrec] at hwill
        exact hnot (Bool.and_eq_true_iff.mpr ⟨htrigger, hwill⟩)

/-- A peer with a record was last announced as the record says. -/
theorem recordOf_info_iff {calls : List TimedCall} {peer : PeerInfo} :
    (∃ rec, recordOf calls id = some rec ∧ rec.info = peer) ↔
      latestInfo id calls = some peer ∧ (recordOf calls id).isSome = true := by
  constructor
  · rintro ⟨rec, hrec, rfl⟩
    rw [hrec]
    exact ⟨(recordOf_eq hrec).1, rfl⟩
  · rintro ⟨hlatest, hsome⟩
    obtain ⟨rec, hrec⟩ := Option.isSome_iff_exists.mp hsome
    exact ⟨rec, hrec, Option.some.inj ((recordOf_eq hrec).1.symm.trans hlatest)⟩

theorem will_iff (calls : List TimedCall) (c : TimedCall) (peer : PeerInfo) :
    .will peer ∈ callbacksOf calls c ↔
      latestInfo peer.id calls = some peer ∧ peer.hasWill = true ∧
        (recordOf calls peer.id).isSome = true ∧
        (c.call = .remove peer.id true ∨ ∃ timeoutMs, c.call = .checkTimeouts timeoutMs ∧
          recordOf (calls ++ [c]) peer.id = none) := by
  rw [mem_callbacksOf, PeerCallback.peerId, recordOf_append]
  have hfires : ∀ triggerWill, .will peer ∈ removal triggerWill peer.id (recordOf calls peer.id) ↔
      triggerWill = true ∧ peer.hasWill = true ∧ latestInfo peer.id calls = some peer ∧
        (recordOf calls peer.id).isSome = true := by
    intro triggerWill
    rw [will_mem_removal, recordOf_info_iff]
  cases hcall : c.call with
  | addOrUpdate other =>
      refine iff_of_false ?_ (by simp)
      simp only [onPeer]
      split
      · cases recordOf calls peer.id with
        | none => simp [arrival]
        | some old =>
            simp only [arrival]
            split <;> simp
      · exact List.not_mem_nil
  | remove peerId triggerWill =>
      simp only [onPeer, Call.remove.injEq, reduceCtorEq, false_and, exists_false, or_false]
      split
      · rename_i heq
        rw [hfires]
        tauto
      · rename_i hne
        refine iff_of_false List.not_mem_nil ?_
        rintro ⟨_, _, _, heq, _⟩
        exact hne heq
  | checkTimeouts timeoutMs =>
      simp only [onPeer, reduceCtorEq, Call.checkTimeouts.injEq, false_or, exists_eq_left']
      split
      · rw [hfires]
        tauto
      · refine iff_of_false List.not_mem_nil ?_
        rintro ⟨_, _, hsome, hnone⟩
        have hgone : recordOf calls peer.id = none := hnone
        rw [hgone] at hsome
        cases hsome
  | heartbeat peerId =>
      refine iff_of_false ?_ (by simp)
      simp only [onPeer]
      split <;> exact List.not_mem_nil

/-- The callbacks about each peer form sessions, and every call follows up on what was announced
and heard before. -/
theorem traces_wellFormed (calls : List TimedCall) :
    (∀ id, (about id (history calls).2).map reportOf ∈ sessions) ∧
      ∀ c, FollowsUp calls c := by
  refine ⟨fun id => (reported_history calls id).sessions, fun c => ⟨?_, ?_, ?_⟩⟩
  · intro peer
    rw [updated_iff]
    simp only [changed, Bool.or_eq_true, decide_eq_true_iff, or_assoc]
  · exact will_iff calls c
  · rintro timeoutMs hcall id hsome
    obtain ⟨now, call⟩ := c
    obtain rfl := hcall
    exact timeout_iff hsome

/-- A peer with a will. -/
def willingPeer : PeerInfo where
  id := 1
  name := []
  hostName := []
  endpoints := []
  publishedTopics := []
  subscribedTopics := []
  hasWill := true

/-- A removal may leave a will without any timeout. -/
theorem not_only_timeouts :
    ¬ ∀ (calls : List TimedCall) (c : TimedCall) (peer : PeerInfo),
      .will peer ∈ callbacksOf calls c → ∃ timeoutMs, c.call = .checkTimeouts timeoutMs := by
  intro hclaim
  obtain ⟨_, hcall⟩ := hclaim [⟨0, .addOrUpdate willingPeer⟩] ⟨0, .remove 1 true⟩ willingPeer
    (by decide)
  cases hcall

end PeerRegistry

end EmbedMq
