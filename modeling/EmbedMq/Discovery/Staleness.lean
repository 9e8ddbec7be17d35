import EmbedMq.Discovery.PeerRegistry
import EmbedMq.Foundation.Threads

/-!
# Which peers are given up

`checkTimeouts` finds the silent peers in one mutex-protected section and removes each
of them in a later one. A peer that is heard of in between is removed all the same,
and its will is published. If no peer is heard of in between, the records that are
removed are stale.
-/

namespace EmbedMq

/-- Any number of calls in progress on one registry. A step is a mutex-protected section, and
its input is what the clock shows. -/
abbrev RegistryThreads := Threads PeerRegistry Int PeerRegistry.Call

abbrev RegistryEvent := Event PeerRegistry Int PeerRegistry.Call

namespace PeerRegistry

/-- A section, with the callbacks that follow it. -/
def run (now : Int) (call : Call) (reg : PeerRegistry) : Outcome PeerRegistry Call PeerCallback :=
  let (after, callbacks, more) := reg.enter now call
  { state := after, effects := callbacks, next := more }

/-- The call refreshes the record of a peer. -/
def refreshes (id : UInt16) : Call → Bool
  | .addOrUpdate peer => decide (peer.id = id)
  | .heartbeat peerId => decide (peerId = id)
  | _ => false

/-- The record of a peer, if there is one, was last refreshed at this time. -/
def SeenAt (id : UInt16) (time : Int) (reg : PeerRegistry) : Prop :=
  ∀ rec, reg.records.lookup id = some rec → rec.lastSeen = time

variable {now : Int} {reg : PeerRegistry} {id : UInt16}

/-- A record after a section was put there by the section, or was there before. -/
theorem lookup_run {call : Call} {rec : PeerRecord}
    (h : (run now call reg).state.records.lookup id = some rec) :
    (call = .addOrUpdate rec.info ∧ rec.info.id = id) ∨
      ((∀ peer, call = .addOrUpdate peer → peer.id ≠ id) ∧
        ∃ old, reg.records.lookup id = some old ∧ old.info = rec.info ∧
          (refreshes id call = false → old.lastSeen = rec.lastSeen)) := by
  cases call with
  | addOrUpdate peer =>
      have hafter : (run now (.addOrUpdate peer) reg).state.records =
          reg.records.insert peer.id ⟨peer, now⟩ := by
        simp only [run, enter, addOrUpdate]
        split
        · rfl
        · rfl
      rw [hafter, Table.lookup_insert_eq] at h
      split at h
      · rename_i heq
        obtain rfl := Option.some.inj h
        exact Or.inl ⟨rfl, heq.symm⟩
      · rename_i hne
        refine Or.inr ⟨fun other hother => ?_, rec, h, rfl, fun _ => rfl⟩
        rw [← Call.addOrUpdate.inj hother]
        exact Ne.symm hne
  | remove peerId triggerWill =>
      refine Or.inr ⟨fun _ hother => (by cases hother), rec, ?_, rfl, fun _ => rfl⟩
      simp only [run, enter, remove] at h
      split at h
      · exact h
      · rw [Table.lookup_erase_eq] at h
        split at h
        · cases h
        · exact h
  | checkTimeouts timeoutMs =>
      exact Or.inr ⟨fun _ hother => (by cases hother), rec, h, rfl, fun _ => rfl⟩
  | heartbeat peerId =>
      refine Or.inr ⟨fun _ hother => (by cases hother), ?_⟩
      simp only [run, enter, heartbeat] at h
      split at h
      · exact ⟨rec, h, rfl, fun _ => rfl⟩
      · rename_i old hold
        rw [Table.lookup_insert_eq] at h
        split at h
        · rename_i heq
          obtain rfl := Option.some.inj h
          refine ⟨old, heq ▸ hold, rfl, fun hquiet => ?_⟩
          exact absurd heq.symm (of_decide_eq_false hquiet)
        · exact ⟨rec, h, rfl, fun _ => rfl⟩

/-- Only a call that refreshes a peer changes when it was last seen. -/
theorem seenAt_run {call : Call} {time : Int} (hquiet : refreshes id call = false)
    (h : reg.SeenAt id time) : (run now call reg).state.SeenAt id time := by
  intro rec hrec
  obtain ⟨rfl, hid⟩ | ⟨_, old, hold, _, hseen⟩ := lookup_run hrec
  · exact absurd hid (of_decide_eq_false hquiet)
  · rw [← hseen hquiet]
    exact h old hold

/-- A dead peer has been silent for longer than the timeout. -/
theorem mem_dead {timeoutMs : UInt32} (h : id ∈ reg.dead now timeoutMs) :
    ∃ rec, reg.records.lookup id = some rec ∧
      timeoutMs.toNat * MessageBus.millisecond < now - rec.lastSeen := by
  rw [dead, Table.mem_selected (p := fun rec : PeerRecord => (timeoutMs.toNat : Int) <
    (now - rec.lastSeen).tdiv MessageBus.millisecond)] at h
  obtain ⟨rec, hlookup, hsilent⟩ := h
  refine ⟨rec, hlookup, ?_⟩
  -- The quotient is rounded towards zero, so it is positive only if the difference is.
  obtain hneg | hnonneg := Int.lt_or_le (now - rec.lastSeen) 0
  · have hquotient : (now - rec.lastSeen).tdiv MessageBus.millisecond ≤ 0 := by
      rw [← Int.neg_neg (now - rec.lastSeen), Int.neg_tdiv, Int.neg_nonpos_iff]
      exact Int.tdiv_nonneg (by omega) (by decide)
    omega
  · rw [Int.tdiv_eq_ediv_of_nonneg hnonneg] at hsilent
    simp only [MessageBus.millisecond] at hsilent ⊢
    omega

/-- A removal that may publish a will was decided by `checkTimeouts`. -/
theorem remove_asked {call : Call} (h : .remove id true ∈ (run now call reg).next) :
    ∃ timeoutMs, call = .checkTimeouts timeoutMs ∧ id ∈ reg.dead now timeoutMs := by
  cases call with
  | checkTimeouts timeoutMs =>
      obtain ⟨other, hdead, heq⟩ := List.mem_map.mp h
      obtain ⟨rfl, _⟩ := Call.remove.inj heq
      exact ⟨timeoutMs, rfl, hdead⟩
  | _ => exact absurd h List.not_mem_nil

/-- A will is published for a record that has one. -/
theorem will_run {call : Call} {peer : PeerInfo} (h : .will peer ∈ (run now call reg).effects) :
    peer.hasWill = true ∧ ∃ id rec, reg.records.lookup id = some rec ∧ rec.info = peer := by
  cases call with
  | addOrUpdate other =>
      simp only [run, enter, addOrUpdate] at h
      split at h
      · simp at h
      · split at h
        · simp at h
        · simp at h
  | remove peerId triggerWill =>
      simp only [run, enter, remove] at h
      split at h
      · exact absurd h List.not_mem_nil
      · rename_i rec hrec
        obtain hwill | hlost := List.mem_append.mp h
        · split at hwill
          · rename_i hboth
            have hpeer := PeerCallback.will.inj (List.mem_singleton.mp hwill)
            rw [hpeer]
            exact ⟨(Bool.and_eq_true_iff.mp hboth).2, peerId, rec, hrec, rfl⟩
          · exact absurd hwill List.not_mem_nil
        · cases List.mem_singleton.mp hlost
  | checkTimeouts timeoutMs => exact absurd h List.not_mem_nil
  | heartbeat peerId => exact absurd h List.not_mem_nil

end PeerRegistry

namespace RegistryThreads

open PeerRegistry (run refreshes)

/-- A call by the receive thread or by the timer thread. -/
inductive Entry : List PeerRegistry.Call → Prop
  | addOrUpdate (peer : PeerInfo) : Entry [.addOrUpdate peer]
  | heartbeat (peerId : UInt16) : Entry [.heartbeat peerId]
  | farewell (peerId : UInt16) : Entry [.remove peerId false]
  | checkTimeouts (timeoutMs : UInt32) : Entry [.checkTimeouts timeoutMs]

def system : TransitionSystem RegistryThreads (Threads.Label Int PeerRegistry.Call) :=
  Threads.system run (fun reg => reg = {}) Entry

/-- A removal after a timeout finds only a record that has been silent for longer than the
timeout, at the time that `checkTimeouts` has read. -/
def Stale (s : RegistryThreads) : Prop :=
  ∀ post e pre id rec, s.log = post ++ e :: pre → e.action = .remove id true →
    e.before.records.lookup id = some rec →
    ∃ check ∈ pre, check.call = e.call ∧ ∃ timeoutMs, check.action = .checkTimeouts timeoutMs ∧
      timeoutMs.toNat * MessageBus.millisecond < check.input - rec.lastSeen

/-- A peer is removed only if it was not refreshed since it was found dead. -/
def Unrefreshed (s : RegistryThreads) : Threads.Label Int PeerRegistry.Call → Prop
  | .start _ => True
  | .step i _ => ∀ id rest, s.calls[i]? = some (.remove id true :: rest) →
      ∀ recent check older timeoutMs, s.log = recent ++ check :: older → check.call = i →
        check.action = .checkTimeouts timeoutMs → ∀ e ∈ recent, refreshes id e.action = false

/-- In every run in which no peer is refreshed between the section that finds it dead and its
removal, only stale records are removed after a timeout. -/
theorem removed_stale {s : RegistryThreads} (h : (system.restrict Unrefreshed).Reachable s) :
    Stale s := by
  intro post e pre id rec hlog haction hrec
  obtain ⟨t, rest, hreach, rfl, hshared, hcall, hcond⟩ := Threads.event_origin h hlog
  rw [haction] at hcall
  obtain ⟨actions, hentry, hmem⟩ | ⟨check, hcheck, hsame, hasked⟩ :=
    Threads.origin_waiting hreach (Threads.waiting_head hcall)
  · cases hentry <;> cases List.mem_singleton.mp hmem
  · obtain ⟨timeoutMs, hcheckAction, hdead⟩ := PeerRegistry.remove_asked hasked
    obtain ⟨found, hfound, hsilent⟩ := PeerRegistry.mem_dead hdead
    obtain ⟨recent, older, hsplit⟩ := List.append_of_mem hcheck
    -- The record that was found dead is still the one that was last seen.
    have hfoundSeen : (check.outcome run).state.SeenAt id found.lastSeen := by
      rw [Event.outcome, hcheckAction]
      intro other hother
      obtain rfl := Option.some.inj (hfound.symm.trans hother)
      rfl
    have hseen : t.shared.SeenAt id found.lastSeen := by
      refine Threads.since (PeerRegistry.SeenAt id found.lastSeen) hreach hsplit hfoundSeen
        fun x hx => ?_
      exact PeerRegistry.seenAt_run
        (hcond id rest hcall recent check older timeoutMs hsplit hsame hcheckAction x hx)
    rw [← hshared] at hrec
    refine ⟨check, hcheck, hsame, timeoutMs, hcheckAction, ?_⟩
    rw [hseen rec hrec]
    exact hsilent

/-! ### A peer that comes back in time -/

/-- A peer with a will. -/
def silentPeer : PeerInfo where
  id := 2
  name := []
  hostName := []
  endpoints := []
  publishedTopics := []
  subscribedTopics := []
  hasWill := true
  willTopic := [0x77]

/-- The peer is heard of once; two seconds later a timeout of one second is checked. -/
def silence : List (Threads.Label Int PeerRegistry.Call) :=
  [.start [.addOrUpdate silentPeer], .step 0 0, .start [.checkTimeouts 1000], .step 1 2000000000]

/-- The peer is removed at once. -/
def silentRun : List (Threads.Label Int PeerRegistry.Call) := silence ++ [.step 1 2000000000]

/-- The peer is heard of again before it is removed. -/
def backRun : List (Threads.Label Int PeerRegistry.Call) :=
  silence ++ [.start [.addOrUpdate silentPeer], .step 2 2000000000, .step 1 2000000000]

def afterRun (labels : List (Threads.Label Int PeerRegistry.Call)) : RegistryThreads :=
  labels.foldl (Threads.next run) ⟨{}, [], []⟩

/-- The section of `checkTimeouts` in a call. -/
def isCheck (i : Nat) (e : RegistryEvent) : Bool :=
  decide (e.call = i) && match e.action with
    | .checkTimeouts _ => true
    | _ => false

/-- No peer is refreshed after the section of `checkTimeouts` in a call. -/
def quietSince (i : Nat) (id : UInt16) : List RegistryEvent → Bool
  | [] => true
  | e :: older => !(refreshes id e.action && older.any (isCheck i)) && quietSince i id older

theorem refreshes_of_quietSince {i : Nat} {id : UInt16} {recent older : List RegistryEvent}
    {check : RegistryEvent} (h : quietSince i id (recent ++ check :: older) = true)
    (hcheck : isCheck i check = true) : ∀ e ∈ recent, refreshes id e.action = false := by
  induction recent with
  | nil => exact fun _ hmem => absurd hmem List.not_mem_nil
  | cons first recent ih =>
      rw [List.cons_append, quietSince] at h
      obtain ⟨hfirst, hrest⟩ := Bool.and_eq_true_iff.mp h
      intro e hmem
      obtain rfl | hmem := List.mem_cons.mp hmem
      · have hany : (recent ++ check :: older).any (isCheck i) = true :=
          List.any_eq_true.mpr ⟨check, List.mem_append_right _ List.mem_cons_self, hcheck⟩
        rw [hany, Bool.and_true, Bool.not_eq_true'] at hfirst
        exact hfirst
      · exact ih hrest e hmem

def unrefreshedCheck (s : RegistryThreads) : Threads.Label Int PeerRegistry.Call → Bool
  | .start _ => true
  | .step i _ =>
      match s.calls[i]? with
      | some (.remove id true :: _) => quietSince i id s.log
      | _ => true

theorem unrefreshed_of_check (s : RegistryThreads) (l : Threads.Label Int PeerRegistry.Call)
    (h : unrefreshedCheck s l = true) : Unrefreshed s l := by
  cases l with
  | start actions => trivial
  | step i now =>
      intro id rest hcall recent check older timeoutMs hlog hsame haction
      simp only [unrefreshedCheck, hcall, hlog] at h
      refine refreshes_of_quietSince h ?_
      simp only [isCheck, hsame, haction, decide_true, Bool.and_self]

theorem entry_of_mem {actions : List PeerRegistry.Call} (h : .start actions ∈ backRun) :
    Entry actions := by
  simp only [backRun, silence, List.mem_append, List.mem_cons, Threads.Label.start.injEq,
    reduceCtorEq, List.not_mem_nil, or_false, false_or] at h
  obtain (rfl | rfl) | rfl := h
  · exact .addOrUpdate _
  · exact .checkTimeouts _
  · exact .addOrUpdate _

theorem silentRun_reachable : (system.restrict Unrefreshed).Reachable (afterRun silentRun) := by
  refine Threads.reachable_of_runs (.init ⟨rfl, rfl, rfl⟩) (by decide +kernel) ?_
    (Threads.along_of_checks unrefreshed_of_check (by decide +kernel))
  intro actions hmem
  refine entry_of_mem (List.mem_append_left _ ?_)
  obtain hmem | hmem := List.mem_append.mp hmem
  · exact hmem
  · cases List.mem_singleton.mp hmem

/-- The last section of a run removes the peer, which was last seen at a given time. -/
def removes (time : Int) (s : RegistryThreads) : Bool :=
  match s.log with
  | e :: _ => decide (e.action = .remove 2 true) &&
      decide ((e.before.records.lookup 2).map PeerRecord.lastSeen = some time)
  | [] => false

theorem removed_stale_silent : Stale (afterRun silentRun) ∧ removes 0 (afterRun silentRun) = true :=
  ⟨removed_stale silentRun_reachable, by decide +kernel⟩

/-- A record that was refreshed no earlier than any section of a run is not stale. -/
theorem not_stale {s : RegistryThreads} {time : Int} (hremoves : removes time s = true)
    (hlatest : s.log.all (fun e => decide (e.input ≤ time)) = true) : ¬ Stale s := by
  intro hstale
  unfold removes at hremoves
  split at hremoves
  · rename_i e pre hlog
    obtain ⟨haction, hseen⟩ := Bool.and_eq_true_iff.mp hremoves
    obtain ⟨rec, hrec, rfl⟩ := Option.map_eq_some_iff.mp (of_decide_eq_true hseen)
    obtain ⟨check, hcheck, _, timeoutMs, _, hsilent⟩ :=
      hstale [] e pre 2 rec hlog (of_decide_eq_true haction) hrec
    have hmem : check ∈ s.log := by
      rw [hlog]
      exact List.mem_cons_of_mem _ hcheck
    have hbound := of_decide_eq_true (List.all_eq_true.mp hlatest check hmem)
    simp only [MessageBus.millisecond] at hsilent
    omega
  · exact absurd hremoves Bool.false_ne_true

/-- A peer is heard of after it was found dead, and is removed with its will all the same. -/
theorem removed_fresh : ¬ ∀ s, system.Reachable s → Stale s := by
  intro hclaim
  have hreach : (system.restrict fun _ _ => True).Reachable (afterRun backRun) :=
    Threads.reachable_of_runs (.init ⟨rfl, rfl, rfl⟩) (by decide +kernel) (fun _ => entry_of_mem)
      (Threads.along_true _)
  have hremoves : removes 2000000000 (afterRun backRun) = true := by decide +kernel
  exact not_stale hremoves (by decide +kernel) (hclaim _ hreach.of_restrict)

end RegistryThreads

end EmbedMq
