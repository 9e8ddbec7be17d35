import EmbedMq.Bus.Frame
import EmbedMq.Discovery.PeerRegistry
import EmbedMq.Foundation.Replica
import EmbedMq.Foundation.Transition

/-!
# The routing table as a mirror of the registry

Any number of threads call into the registry. A call enters its mutex-protected
section in one step, and each callback that the section has decided on runs in a
step of its own, after the mutex was released. The callbacks that have not run yet
are kept in the order of their sections. Whatever the threads do, running all of
them in this order would make the routing table of the bus mirror the registry. A
thread that is late breaks the order: its callback about a peer may run after one
of a later section about the same peer.
-/

namespace EmbedMq

/-- The registry, the bus, and the threads that connect them. -/
structure Directory (τ : Type) where
  registry : PeerRegistry
  bus : MessageBus
  /-- The calls that a thread has not entered yet, the next one first. -/
  calls : τ → List PeerRegistry.Call
  /-- The callbacks that have not run yet, in the order of their sections. -/
  issued : List (τ × PeerCallback)

namespace Directory

variable {τ : Type}

inductive Label (τ : Type) where
  /-- A thread starts a call. -/
  | call (t : τ) (c : PeerRegistry.Call)
  /-- A thread runs the mutex-protected section of its next call. -/
  | enter (t : τ) (now : Int)
  /-- A thread runs its next callback. -/
  | deliver (t : τ) (env : Env)

/-- A thread has a section to enter or a callback to run. -/
def InProgress (s : Directory τ) (t : τ) : Prop :=
  s.calls t ≠ [] ∨ t ∈ s.issued.map Prod.fst

/-- A thread runs its callbacks before it goes on, and one call at a time. -/
def Enabled (s : Directory τ) : Label τ → Prop
  | .call t _ => ¬ s.InProgress t
  | .enter t _ => s.calls t ≠ [] ∧ t ∉ s.issued.map Prod.fst
  | .deliver t _ => t ∈ s.issued.map Prod.fst

variable [DecidableEq τ]

instance (s : Directory τ) (t : τ) : Decidable (s.InProgress t) :=
  inferInstanceAs (Decidable (_ ∨ _))

instance (s : Directory τ) : (l : Label τ) → Decidable (s.Enabled l)
  | .call _ _ => inferInstanceAs (Decidable (¬ _))
  | .enter _ _ => inferInstanceAs (Decidable (_ ∧ _))
  | .deliver _ _ => inferInstanceAs (Decidable (_ ∈ _))

def next (s : Directory τ) : Label τ → Directory τ
  | .call t c => { s with calls := Function.update s.calls t [c] }
  | .enter t now =>
      match s.calls t with
      | [] => s
      | c :: rest =>
          let (registry, callbacks, more) := s.registry.enter now c
          { s with
            registry
            calls := Function.update s.calls t (more ++ rest)
            issued := s.issued ++ callbacks.map (Prod.mk t) }
  | .deliver t env =>
      match s.issued.find? fun x => x.1 = t with
      | none => s
      | some (_, cb) =>
          { s with bus := cb.run env s.bus, issued := s.issued.eraseP fun x => x.1 = t }

/-- All interleavings, from an empty registry and an empty routing table. -/
def system : TransitionSystem (Directory τ) (Label τ) where
  init s := s.registry = {} ∧ s.bus.peers = ∅ ∧ (∀ t, s.calls t = []) ∧ s.issued = []
  enabled := Enabled
  next := next

instance (s : Directory τ) (l : Label τ) : Decidable (system.enabled s l) :=
  inferInstanceAs (Decidable (s.Enabled l))

/-! ### Mirroring -/

/-- A record and an entry of the routing table, about the same peer. -/
def Agrees : Option PeerRecord → Option PeerInfo → Prop
  | none, none => True
  | some rec, some peer =>
      peer.subscribedTopics = rec.info.subscribedTopics ∧ peer.endpoints = rec.info.endpoints
  | _, _ => False

/-- The routing table has an entry for a peer if and only if the registry has, with the
same subscriptions and endpoints. -/
def Mirrors (s : Directory τ) : Prop :=
  ∀ id, Agrees (s.registry.records.lookup id) (s.bus.peers.lookup id)

/-- A callback runs only when no callback of an earlier section about the same peer is
still to run. -/
def InOrder (s : Directory τ) (l : Label τ) : Prop :=
  ∀ t env, l = .deliver t env → ∀ older cb newer, s.issued = older ++ (t, cb) :: newer →
    (∀ x ∈ older, x.1 ≠ t) → ∀ x ∈ older, x.2.peerId ≠ cb.peerId

/-- The callbacks as updates of the routing table. -/
def peerUpdates : Updates UInt16 PeerCallback (Option PeerInfo) where
  key := PeerCallback.peerId
  act
    | .discovered peer, _ => some peer
    | .updated peer, _ => some peer
    | .will _, entry => entry
    | .lost _ _, _ => none

/-- The routing table of a bus. -/
def routes (bus : MessageBus) : UInt16 → Option PeerInfo := fun id => bus.peers.lookup id

theorem routes_run (env : Env) (cb : PeerCallback) (bus : MessageBus) :
    routes (cb.run env bus) = peerUpdates.apply cb (routes bus) := by
  funext id
  simp only [Updates.apply, Function.update_apply]
  cases cb with
  | discovered peer => exact Table.lookup_insert_eq _ _ _ _
  | updated peer => exact Table.lookup_insert_eq _ _ _ _
  | will peer =>
      obtain ⟨_, hshape⟩ := MessageBus.deliverWill_shape env bus peer.willTopic peer.willPayload
        peer.willRetain peer.id
      simp only [PeerCallback.run, hshape]
      split
      · rename_i hid
        rw [hid]
        rfl
      · rfl
  | lost peerId name => exact Table.lookup_erase_eq _ _ _

/-! ### Sections -/

theorem apply_peerUpdates (cb : PeerCallback) (f : UInt16 → Option PeerInfo) (id : UInt16) :
    peerUpdates.apply cb f id =
      if id = cb.peerId then peerUpdates.act cb (f cb.peerId) else f id :=
  Function.update_apply _ _ _ _

/-- An announcement without a change leaves an entry that agrees with the old record in
agreement with the new one. -/
theorem agrees_of_not_changed {old : PeerRecord} {peer : PeerInfo} (now : Int)
    (hchanged : PeerRegistry.changed old.info peer = false) {entry : Option PeerInfo}
    (h : Agrees (some old) entry) : Agrees (some ⟨peer, now⟩) entry := by
  simp only [PeerRegistry.changed, Bool.or_eq_false_iff, decide_eq_false_iff_not, not_not]
    at hchanged
  obtain ⟨⟨htopics, _⟩, hendpoints⟩ := hchanged
  cases entry with
  | none => exact h
  | some p => exact ⟨h.1.trans htopics, h.2.trans hendpoints⟩

theorem apply_will (peer : PeerInfo) (f : UInt16 → Option PeerInfo) :
    peerUpdates.apply (.will peer) f = f :=
  Function.update_eq_self _ _

section Sections

variable {reg : PeerRegistry} {f : UInt16 → Option PeerInfo}
  (h : ∀ id, Agrees (reg.records.lookup id) (f id))
include h

/-- A callback that announces the peer brings its entry in line with the new record. -/
theorem announce_agrees (now : Int) {peer : PeerInfo} {cb : PeerCallback}
    (hcb : cb = .discovered peer ∨ cb = .updated peer) (id : UInt16) :
    Agrees ((AList.insert peer.id ⟨peer, now⟩ reg.records).lookup id)
      (peerUpdates.apply cb f id) := by
  have hpeer : cb.peerId = peer.id ∧ peerUpdates.act cb (f cb.peerId) = some peer := by
    obtain rfl | rfl := hcb
    · exact ⟨rfl, rfl⟩
    · exact ⟨rfl, rfl⟩
  rw [Table.lookup_insert_eq, apply_peerUpdates, hpeer.1]
  by_cases hid : id = peer.id
  · rw [if_pos hid, if_pos hid, ← hpeer.1, hpeer.2]
    exact ⟨rfl, rfl⟩
  · rw [if_neg hid, if_neg hid]
    exact h id

theorem addOrUpdate_agrees (now : Int) (peer : PeerInfo) (id : UInt16) :
    Agrees ((reg.addOrUpdate now peer).1.records.lookup id)
      (peerUpdates.replay (reg.addOrUpdate now peer).2 f id) := by
  cases hold : reg.records.lookup peer.id with
  | none =>
      simp only [PeerRegistry.addOrUpdate, hold]
      exact announce_agrees h now (Or.inl rfl) id
  | some old =>
      simp only [PeerRegistry.addOrUpdate, hold]
      cases hchanged : PeerRegistry.changed old.info peer with
      | true => exact announce_agrees h now (Or.inr rfl) id
      | false =>
          change Agrees ((AList.insert peer.id ⟨peer, now⟩ reg.records).lookup id) (f id)
          have hentry := h id
          rw [Table.lookup_insert_eq]
          by_cases hid : id = peer.id
          · rw [hid, hold] at hentry
            rw [if_pos hid, hid]
            exact agrees_of_not_changed now hchanged hentry
          · rw [if_neg hid]
            exact hentry

theorem remove_agrees (peerId : UInt16) (triggerWill : Bool) (id : UInt16) :
    Agrees ((reg.remove peerId triggerWill).1.records.lookup id)
      (peerUpdates.replay (reg.remove peerId triggerWill).2 f id) := by
  cases hrec : reg.records.lookup peerId with
  | none =>
      simp only [PeerRegistry.remove, hrec]
      exact h id
  | some rec =>
      have hlost : Agrees ((AList.erase peerId reg.records).lookup id)
          (peerUpdates.apply (.lost peerId rec.info.name) f id) := by
        rw [Table.lookup_erase_eq, apply_peerUpdates]
        change Agrees _ (if id = peerId then none else f id)
        by_cases hid : id = peerId
        · rw [if_pos hid, if_pos hid]
          exact trivial
        · rw [if_neg hid, if_neg hid]
          exact h id
      simp only [PeerRegistry.remove, hrec]
      split
      · rw [List.singleton_append, Updates.replay_cons, apply_will]
        exact hlost
      · exact hlost

theorem heartbeat_agrees (now : Int) (peerId : UInt16) (id : UInt16) :
    Agrees ((reg.heartbeat now peerId).records.lookup id) (f id) := by
  have hentry := h id
  cases hrec : reg.records.lookup peerId with
  | none =>
      simp only [PeerRegistry.heartbeat, hrec]
      exact hentry
  | some rec =>
      simp only [PeerRegistry.heartbeat, hrec]
      rw [Table.lookup_insert_eq]
      by_cases hid : id = peerId
      · rw [hid, hrec] at hentry
        rw [if_pos hid, hid]
        exact agrees_of_not_changed now (by simp [PeerRegistry.changed]) hentry
      · rw [if_neg hid]
        exact hentry

/-- Whatever section is entered, its callbacks bring the routing table in line with the
registry that it leaves. -/
theorem enter_agrees (now : Int) (c : PeerRegistry.Call) (id : UInt16) :
    Agrees ((reg.enter now c).1.records.lookup id)
      (peerUpdates.replay (reg.enter now c).2.1 f id) := by
  cases c with
  | addOrUpdate peer => exact addOrUpdate_agrees h now peer id
  | remove peerId triggerWill => exact remove_agrees h peerId triggerWill id
  | checkTimeouts timeoutMs => exact h id
  | heartbeat peerId => exact heartbeat_agrees h now peerId id

end Sections

/-! ### Runs -/

/-- Running the callbacks in the order of their sections would make the routing table
mirror the registry. -/
def WillMirror (s : Directory τ) : Prop :=
  ∀ id, Agrees (s.registry.records.lookup id)
    (peerUpdates.replay (s.issued.map Prod.snd) (routes s.bus) id)

theorem willMirror_enter {s : Directory τ} (h : s.WillMirror) (t : τ) (now : Int) :
    (s.next (.enter t now)).WillMirror := by
  cases hcalls : s.calls t with
  | nil =>
      simp only [next, hcalls]
      exact h
  | cons c rest =>
      intro id
      simp only [next, hcalls, List.map_append, List.map_map]
      have hsnd : (s.registry.enter now c).2.1.map (Prod.snd ∘ Prod.mk t) =
          (s.registry.enter now c).2.1 := List.map_id _
      rw [hsnd, Updates.replay_append]
      exact enter_agrees h now c id

theorem willMirror_deliver {s : Directory τ} (h : s.WillMirror) (t : τ) (env : Env)
    (horder : s.InOrder (.deliver t env)) : (s.next (.deliver t env)).WillMirror := by
  cases hfind : s.issued.find? fun x => x.1 = t with
  | none =>
      simp only [next, hfind]
      exact h
  | some found =>
      obtain ⟨t', cb⟩ := found
      obtain ⟨ht, older, newer, hissued, holder⟩ := List.find?_eq_some_iff_append.mp hfind
      obtain rfl : t' = t := of_decide_eq_true ht
      have hothers : ∀ x ∈ older, x.1 ≠ t' := by
        intro x hmem
        simpa using holder x hmem
      have herase : s.issued.eraseP (fun x => x.1 = t') = older ++ newer := by
        rw [hissued, List.eraseP_append_right _ (by simpa using hothers),
          List.eraseP_cons_of_pos (by simp)]
      have hkeys : ∀ c ∈ older.map Prod.snd, peerUpdates.key c ≠ peerUpdates.key cb := by
        intro c hmem
        obtain ⟨x, hx, rfl⟩ := List.mem_map.mp hmem
        exact horder t' env rfl older cb newer hissued hothers x hx
      intro id
      simp only [next, hfind, herase, routes_run]
      have hid := h id
      rw [hissued, List.map_append, List.map_cons, Updates.replay_early _ hkeys,
        ← List.map_append] at hid
      exact hid

theorem willMirror {s : Directory τ} (hs : (system.restrict InOrder).Reachable s) :
    s.WillMirror := by
  refine hs.invariant ?_ ?_
  · rintro s ⟨hregistry, hpeers, _, hissued⟩ id
    rw [hregistry, hissued, List.map_nil, Updates.replay_nil, routes, hpeers]
    exact trivial
  · intro s l _ h henabled
    cases l with
    | call t c => exact h
    | enter t now => exact willMirror_enter h t now
    | deliver t env => exact willMirror_deliver h t env henabled.2

/-- In every run in which the callbacks about a peer run in the order of the sections
that decided on them, the routing table mirrors the registry whenever no call is in
progress. -/
theorem mirrors_of_inOrder {s : Directory τ} (hs : (system.restrict InOrder).Reachable s)
    (hidle : ∀ t, ¬ s.InProgress t) : s.Mirrors := by
  have hissued : s.issued = [] := by
    apply List.eq_nil_iff_forall_not_mem.mpr
    intro x hmem
    exact hidle x.1 (Or.inr (List.mem_map_of_mem hmem))
  intro id
  have h := willMirror hs id
  rw [hissued, List.map_nil, Updates.replay_nil] at h
  exact h

/-! ### A callback that comes too late -/

/-- The thread that receives announcements, and the thread that checks timeouts. -/
inductive Thread where
  | receive
  | timer
  deriving DecidableEq

namespace Thread

def empty : Directory Thread :=
  { registry := {}, bus := { nodeId := 1, localHostName := [] }, calls := fun _ => [],
    issued := [] }

def peer : PeerInfo where
  id := 2
  name := []
  hostName := []
  endpoints := [{ address := [2], port := 7400, transportType := MessageBus.udp }]
  publishedTopics := []
  subscribedTopics := [[0x74]]

def env : Env where
  now := 0
  sent _ := 0
  stamp _ := 0
  active _ := true
  invoke _ _ := []

/-- The peer is discovered, and 4 seconds later the timer thread removes it. -/
def removal : List (Label Thread) :=
  [.call receive (.addOrUpdate peer), .enter receive 0, .deliver receive env,
    .call timer (.checkTimeouts 3000), .enter timer 4000000000, .enter timer 4000000000]

/-- Before it has told the bus, the peer announces itself again. -/
def overtaking : List (Label Thread) :=
  removal ++ [.call receive (.addOrUpdate peer), .enter receive 4000000000, .deliver receive env,
    .deliver timer env]

theorem inOrder_of_not_deliver {s : Directory Thread} {l : Label Thread}
    (h : ∀ t env, l ≠ .deliver t env) : s.InOrder l :=
  fun t env hl => absurd hl (h t env)

/-- A single callback is never late. -/
theorem inOrder_of_single {s : Directory Thread} {l : Label Thread} (h : s.issued.length ≤ 1) :
    s.InOrder l := by
  intro t env _ older cb newer hissued _ x hmem
  rw [hissued, List.length_append, List.length_cons] at h
  have hpos := List.length_pos_of_mem hmem
  omega

theorem removal_reachable :
    (system.restrict InOrder).Reachable (system.exec empty (removal ++ [.deliver timer env])) := by
  refine TransitionSystem.Reachable.exec (.init ⟨rfl, rfl, fun _ => rfl, rfl⟩) ?_
  refine ⟨⟨?_, inOrder_of_not_deliver (by simp)⟩, ⟨?_, inOrder_of_not_deliver (by simp)⟩,
    ⟨?_, inOrder_of_single ?_⟩, ⟨?_, inOrder_of_not_deliver (by simp)⟩,
    ⟨?_, inOrder_of_not_deliver (by simp)⟩, ⟨?_, inOrder_of_not_deliver (by simp)⟩,
    ⟨?_, inOrder_of_single ?_⟩, trivial⟩
  all_goals decide +kernel

theorem overtaking_reachable : system.Reachable (system.exec empty overtaking) :=
  TransitionSystem.Reachable.exec (.init ⟨rfl, rfl, fun _ => rfl, rfl⟩) (by decide +kernel)

end Thread

open Thread

/-- The peer times out and the bus is told before anything else happens. -/
theorem mirrors_of_inOrder_removal :
    (system.exec empty (removal ++ [.deliver timer env])).Mirrors := by
  refine mirrors_of_inOrder removal_reachable ?_
  rintro (_ | _) <;> decide +kernel

/-- A run in which the registry knows a peer and the bus does not, with no call in
progress: the removal reaches the bus after the new announcement. -/
theorem overtaken_mirror : ¬ ∀ s : Directory Thread, system.Reachable s →
    (∀ t, ¬ s.InProgress t) → s.Mirrors := by
  intro hclaim
  have hidle : ∀ t, ¬ (system.exec empty overtaking).InProgress t := by
    rintro (_ | _) <;> decide +kernel
  have hagrees := hclaim _ overtaking_reachable hidle 2
  have hrecord : ((system.exec empty overtaking).registry.records.lookup 2).isSome = true := by
    decide +kernel
  have hentry : ((system.exec empty overtaking).bus.peers.lookup 2).isNone = true := by
    decide +kernel
  obtain ⟨rec, hrec⟩ := Option.isSome_iff_exists.mp hrecord
  rw [hrec, Option.isNone_iff_eq_none.mp hentry] at hagrees
  exact hagrees

end Directory

end EmbedMq
