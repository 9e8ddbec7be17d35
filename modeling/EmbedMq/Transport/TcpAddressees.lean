import EmbedMq.Transport.TcpSockets

/-!
# Which socket a TCP frame is written to

A send looks the descriptor of its endpoint up under `mutex_` and writes to that number under
`sendMutex_`. In between the client loop may close the socket, and the system may give the number
to the next one. When no number goes to a connection while a send to somebody else waits to
write to it, each frame is written to a socket that is connected to its addressee.
-/

namespace EmbedMq

open TcpTransport

namespace TcpSockets

/-- The sends that have looked up their socket and have not returned. -/
def pending (s : TcpSockets) : List Entry := s.writer.toList ++ s.sends

/-- A send to another endpoint is going to write to this number. -/
def Awaited (s : TcpSockets) (key : Key) (n : Nat) : Prop :=
  ∃ send ∈ s.pending, send.n = n ∧ send.key ≠ key

instance (s : TcpSockets) (key : Key) (n : Nat) : Decidable (s.Awaited key n) :=
  inferInstanceAs (Decidable (∃ send ∈ s.pending, _))

/-- The number of a new connection is not one that a send to another endpoint waits for. -/
def Settled (s : TcpSockets) : Label → Prop
  | .acceptReturn key n => ¬s.Awaited key n
  | .getOrConnect key (.connected n) => s.connections.lookup key = none → ¬s.Awaited key n
  | _ => True

instance (s : TcpSockets) : (l : Label) → Decidable (s.Settled l)
  | .acceptReturn _ _ => inferInstanceAs (Decidable (¬_))
  | .getOrConnect _ (.connected _) => inferInstanceAs (Decidable (_ → _))
  | .getOrConnect _ .noSocket | .getOrConnect _ (.refused _) => isTrue trivial
  | .initCreate _ | .initNoSocket | .initFail | .initDone | .acceptError => isTrue trivial
  | .acceptStep | .sendEnter _ | .sendLock _ | .sendWrite | .sendUnlock => isTrue trivial
  | .loopEnd _ | .exchange | .closeListen | .closeAll | .join => isTrue trivial

instance (s : TcpSockets) (l : Label) : Decidable ((system.restrict Settled).enabled s l) :=
  inferInstanceAs (Decidable (Enabled s l ∧ s.Settled l))

/-- Everything was written to a socket that is connected to its addressee. -/
def Delivered (s : TcpSockets) : Prop := ∀ write ∈ s.written, s.peer write.2 = some write.1

/-- Where a number stands together with the key it is for. -/
def Uses (s : TcpSockets) (use : Entry) : Prop :=
  s.connections.lookup use.key = some use.n ∨ s.acceptor.held = some use ∨ use ∈ s.pending

/-- The latest socket under the number is connected to nobody else. -/
def Addressed (s : TcpSockets) (use : Entry) : Prop :=
  ∀ k key, s.os.holder use.n = some k → s.peer k = some key → key = use.key

theorem mem_pending_sendStart {s : TcpSockets} {key : Key} {n : Nat} {send : Entry} :
    send ∈ (s.sendStart key n).pending ↔ send = ⟨key, n⟩ ∨ send ∈ s.pending := by
  change send ∈ s.writer.toList ++ ⟨key, n⟩ :: s.sends ↔ _
  rw [pending, List.mem_append, List.mem_cons, List.mem_append, or_left_comm]

/-- A number that was free is used by nobody but sends. -/
theorem Uses.of_free {s : TcpSockets} (hexclusive : s.os.Exclusive s.place) {n : Nat}
    (hfree : s.os.Free n) {use : Entry} (huse : s.Uses use) (hn : use.n = n) :
    use ∈ s.pending := by
  obtain hentry | hheld | hsend := huse
  · rw [hn] at hentry
    exact absurd hentry (hexclusive.ne_of_free hfree (.entry use.key))
  · have hplace : s.place .acceptor = some n := by rw [place, hheld, Option.map_some, hn]
    exact absurd hplace (hexclusive.ne_of_free hfree .acceptor)
  · exact hsend

theorem key_eq_of_not_awaited {s : TcpSockets} {key : Key} {n : Nat} (h : ¬s.Awaited key n)
    {send : Entry} (hsend : send ∈ s.pending) (hn : send.n = n) : send.key = key :=
  Classical.byContradiction fun hne => h ⟨send, hsend, hn, hne⟩

structure Directed (s : TcpSockets) : Prop where
  fresh : ∀ k, s.os.created ≤ k → s.peer k = none
  addressed : ∀ use, s.Uses use → s.Addressed use
  delivered : s.Delivered

namespace Directed

variable {s t : TcpSockets} (h : Directed s)
include h

/-- A step that makes no socket. -/
theorem same (hcreated : t.os.created = s.os.created) (hholder : t.os.holder = s.os.holder)
    (hpeer : t.peer = s.peer) (hwritten : t.written = s.written)
    (huses : ∀ use, t.Uses use → s.Uses use) : Directed t := by
  refine ⟨?_, fun use huse => ?_, ?_⟩
  · rw [hcreated, hpeer]
    exact h.fresh
  · have hold := h.addressed use (huses use huse)
    rw [Addressed] at hold ⊢
    rwa [hholder, hpeer]
  · rw [Delivered, hwritten, hpeer]
    exact h.delivered

/-- A step that makes a socket that is not connected. -/
theorem create {n : Nat} (hcreated : t.os.created = s.os.created + 1)
    (hholder : t.os.holder = (s.os.create n).holder) (hpeer : t.peer = s.peer)
    (hwritten : t.written = s.written) (huses : ∀ use, t.Uses use → s.Uses use) :
    Directed t := by
  refine ⟨fun k hk => ?_, fun use huse k key hk hkey => ?_, ?_⟩
  · rw [hpeer]
    rw [hcreated] at hk
    exact h.fresh k (Nat.le_of_succ_le hk)
  · rw [hholder] at hk
    rw [hpeer] at hkey
    by_cases hn : use.n = n
    · rw [hn, Descriptors.create_holder] at hk
      rw [← Option.some.inj hk, h.fresh _ (Nat.le_refl _)] at hkey
      cases hkey
    · rw [Descriptors.create_holder_of_ne _ hn] at hk
      exact h.addressed use (huses use huse) k key hk hkey
  · rw [Delivered, hwritten, hpeer]
    exact h.delivered

/-- A step that makes a connection, which nobody but its own key uses. -/
theorem connect (hsound : s.os.Sound) {key : Key} {n : Nat} (hos : t.os = s.os.create n)
    (hpeer : t.peer = Function.update s.peer s.os.created (some key))
    (hwritten : t.written = s.written)
    (huses : ∀ use, t.Uses use → use = ⟨key, n⟩ ∨ s.Uses use ∧ (use.n = n → use.key = key)) :
    Directed t := by
  have hother : ∀ k, k ≠ s.os.created → t.peer k = s.peer k := by
    intro k hk
    rw [hpeer, Function.update_of_ne hk]
  have hkey : ∀ use, t.Uses use → use.n = n → use.key = key := by
    intro use huse hn
    obtain rfl | ⟨-, hsame⟩ := huses use huse
    · rfl
    · exact hsame hn
  refine ⟨fun k hk => ?_, fun use huse k key' hk hkey' => ?_, fun write hwrite => ?_⟩
  · rw [hos, Descriptors.create_created] at hk
    rw [hother k (Nat.ne_of_gt hk)]
    exact h.fresh k (Nat.le_of_succ_le hk)
  · rw [hos] at hk
    by_cases hn : use.n = n
    · rw [hn, Descriptors.create_holder] at hk
      rw [hpeer, ← Option.some.inj hk, Function.update_self] at hkey'
      rw [hkey use huse hn, Option.some.inj hkey']
    · rw [Descriptors.create_holder_of_ne _ hn] at hk
      obtain rfl | ⟨hold, -⟩ := huses use huse
      · exact absurd rfl hn
      · have hlt := hsound.held use.n k hk
        rw [hother k (Nat.ne_of_lt hlt)] at hkey'
        exact h.addressed use hold k key' hk hkey'
  · rw [hwritten] at hwrite
    have hold := h.delivered write hwrite
    have hne : write.2 ≠ s.os.created := by
      intro heq
      rw [heq, h.fresh _ (Nat.le_refl _)] at hold
      cases hold
    rw [hother _ hne, hold]

/-- A step that only changes which sends wait. -/
theorem waiting (hos : t.os = s.os) (hpeer : t.peer = s.peer) (hwritten : t.written = s.written)
    (hconnections : t.connections = s.connections) (hacceptor : t.acceptor = s.acceptor)
    (hsends : ∀ send ∈ t.pending, s.Uses send) : Directed t := by
  refine h.same (by rw [hos]) (by rw [hos]) hpeer hwritten fun use huse => ?_
  rw [Uses, hconnections, hacceptor] at huse
  obtain hentry | hheld | hsend := huse
  · exact .inl hentry
  · exact .inr (.inl hheld)
  · exact hsends use hsend

/-- A step that leaves the accept thread without a socket. -/
theorem released (hheld : t.acceptor.held = none) (hos : t.os = s.os) (hpeer : t.peer = s.peer)
    (hwritten : t.written = s.written) (hconnections : t.connections = s.connections)
    (hpending : t.pending = s.pending) : Directed t := by
  refine h.same (by rw [hos]) (by rw [hos]) hpeer hwritten fun use huse => ?_
  rw [Uses, hconnections, hheld, hpending] at huse
  obtain hentry | hnone | hsend := huse
  · exact .inl hentry
  · cases hnone
  · exact .inr (.inr hsend)

/-- Bytes go to the socket that is open under the number, and it is the addressee's. -/
theorem write {send : Entry} (hsend : send ∈ s.pending) : Directed (s.write send) := by
  have hkeep : ∀ written, (∀ write ∈ written, s.peer write.2 = some write.1) →
      Directed { s with written } := fun written hwritten => ⟨h.fresh, h.addressed, hwritten⟩
  unfold TcpSockets.write
  split
  · rename_i k hk
    split
    · rename_i hopen
      refine hkeep _ fun write hwrite => ?_
      obtain hwrite | hwrite := List.mem_append.mp hwrite
      · exact h.delivered write hwrite
      · obtain ⟨key, hkey⟩ := Option.isSome_iff_exists.mp hopen.2
        have heq := h.addressed send (.inr (.inr hsend)) k key hk hkey
        rw [List.mem_singleton.mp hwrite, hkey, heq]
    · exact h
  · exact h

theorem getOrConnect (hexclusive : s.os.Exclusive s.place) {key : Key} {result : Connect}
    (hfree : ∀ n ∈ result.number, s.os.Free n) (hsettled : s.Settled (.getOrConnect key result)) :
    Directed (s.getOrConnect key result) := by
  cases hlookup : s.connections.lookup key with
  | some n =>
      rw [getOrConnect_found hlookup]
      refine h.waiting rfl rfl rfl rfl rfl fun send hsend => ?_
      obtain rfl | hsend := mem_pending_sendStart.mp hsend
      · exact .inl hlookup
      · exact .inr (.inr hsend)
  | none =>
      rw [getOrConnect_none hlookup]
      cases result with
      | noSocket => exact h.same rfl rfl rfl rfl fun use huse => huse
      | refused n => exact h.create (n := n) rfl rfl rfl rfl fun use huse => huse
      | connected n =>
          have hold : ∀ use, s.Uses use → s.Uses use ∧ (use.n = n → use.key = key) :=
            fun use huse => ⟨huse, fun hn => key_eq_of_not_awaited (hsettled hlookup)
              (huse.of_free hexclusive (hfree n rfl) hn) hn⟩
          refine h.connect hexclusive.sound rfl rfl rfl fun use huse => ?_
          obtain hentry | hheld | hsend := huse
          · change (s.connections.insert key n).lookup use.key = some use.n at hentry
            rw [Table.lookup_insert_eq] at hentry
            split at hentry
            · rename_i hkey
              exact .inl (Entry.ext hkey (Option.some.inj hentry).symm)
            · exact .inr (hold use (.inl hentry))
          · exact .inr (hold use (.inr (.inl hheld)))
          · obtain hsend | hsend := mem_pending_sendStart.mp hsend
            · exact .inl hsend
            · exact .inr (hold use (.inr (.inr hsend)))

theorem acceptStep : Directed (s.acceptStep s.acceptor) := by
  cases hacceptor : s.acceptor with
  | none | waiting | exited => exact h
  | holding key n =>
      refine h.same rfl rfl rfl rfl fun use huse => ?_
      obtain hentry | hheld | hsend := huse
      · change (s.connections.insert key n).lookup use.key = some use.n at hentry
        rw [Table.lookup_insert_eq] at hentry
        split at hentry
        · rename_i hkey
          have huse : use = ⟨key, n⟩ := Entry.ext hkey (Option.some.inj hentry).symm
          exact .inr (.inl (by rw [hacceptor, huse]; rfl))
        · exact .inl hentry
      · cases hheld
      · exact .inr (.inr hsend)
  | spawning key n => exact h.released (acceptNext_held s) rfl rfl rfl rfl rfl

theorem closeOwnedConnection (loop : Entry) : Directed (s.next (.loopEnd loop)) := by
  rw [TcpSockets.next, TcpSockets.closeOwnedConnection]
  split
  · refine h.same rfl rfl rfl rfl fun use huse => ?_
    obtain hentry | hrest := huse
    · change (s.connections.erase loop.key).lookup use.key = some use.n at hentry
      rw [Table.lookup_erase_eq] at hentry
      split at hentry
      · cases hentry
      · exact .inl hentry
    · exact .inr hrest
  · exact h.same rfl rfl rfl rfl fun use huse => huse

theorem next (hexclusive : s.os.Exclusive s.place) {l : Label} (hl : Enabled s l)
    (hsettled : s.Settled l) : Directed (s.next l) := by
  cases l with
  | initCreate n => exact h.create (n := n) rfl rfl rfl rfl fun use huse => huse
  | initNoSocket | initFail | sendEnter => exact h.same rfl rfl rfl rfl fun use huse => huse
  | initDone => exact h.released rfl rfl rfl rfl rfl rfl
  | acceptError => exact h.released (acceptNext_held s) rfl rfl rfl rfl rfl
  | join => exact h.released rfl rfl rfl rfl rfl rfl
  | acceptReturn key n =>
      have hold : ∀ use, s.Uses use → s.Uses use ∧ (use.n = n → use.key = key) :=
        fun use huse => ⟨huse, fun hn => key_eq_of_not_awaited hsettled
          (huse.of_free hexclusive hl.2 hn) hn⟩
      refine h.connect hexclusive.sound rfl rfl rfl fun use huse => ?_
      obtain hentry | hheld | hsend := huse
      · exact .inr (hold use (.inl hentry))
      · exact .inl (Option.some.inj hheld).symm
      · exact .inr (hold use (.inr (.inr hsend)))
  | acceptStep => exact h.acceptStep
  | getOrConnect key result => exact h.getOrConnect hexclusive hl.2 hsettled
  | sendLock send =>
      refine h.waiting rfl rfl rfl rfl rfl fun other hother => ?_
      obtain hother | hother := List.mem_append.mp hother
      · have heq : other = send := (Option.mem_some_iff.mp (Option.mem_toList.mp hother)).symm
        exact .inr (.inr (List.mem_append_right _ (heq ▸ hl.1)))
      · exact .inr (.inr (List.mem_append_right _ (List.mem_of_mem_erase hother)))
  | sendWrite =>
      obtain ⟨send, hsend⟩ := Option.isSome_iff_exists.mp hl
      have hstep : s.next .sendWrite = s.write send := by simp only [TcpSockets.next, hsend]
      rw [hstep]
      exact h.write (List.mem_append_left _ (Option.mem_toList.mpr hsend))
  | sendUnlock =>
      exact h.waiting rfl rfl rfl rfl rfl fun send hsend =>
        .inr (.inr (List.mem_append_right _ hsend))
  | loopEnd loop => exact h.closeOwnedConnection loop
  | exchange =>
      rw [TcpSockets.next]
      split
      · exact h.same rfl rfl rfl rfl fun use huse => huse
      · exact h
  | closeListen =>
      cases hlisten : s.listenFd with
      | none =>
          have hos : (s.next .closeListen).os = s.os := by simp [TcpSockets.next, hlisten]
          exact h.same (by rw [hos]) (by rw [hos]) rfl rfl fun use huse => huse
      | some n =>
          have hos : (s.next .closeListen).os = s.os.close n := by
            simp [TcpSockets.next, hlisten]
          exact h.same (by rw [hos]; rfl) (by rw [hos]; rfl) rfl rfl fun use huse => huse
  | closeAll =>
      refine h.same (Descriptors.foldl_close_created ..) (Descriptors.foldl_close_holder ..) rfl
        rfl fun use huse => ?_
      obtain hentry | hrest := huse
      · cases hentry
      · exact .inr hrest

end Directed

theorem directed_of_reachable {s : TcpSockets} (h : (system.restrict Settled).Reachable s) :
    Directed s := by
  refine h.invariant (fun s hinit => ?_) fun s l hreach hdirected hl =>
    hdirected.next (exclusive_of_reachable hreach.of_restrict) hl.1 hl.2
  obtain rfl : s = {} := hinit
  refine ⟨fun _ _ => rfl, fun use huse k key hk => (by cases hk), fun write hwrite => ?_⟩
  cases hwrite

/-- Every frame is written only to sockets that are connected to its addressee. -/
theorem delivered_of_settled {s : TcpSockets} (h : (system.restrict Settled).Reachable s) :
    s.Delivered :=
  (directed_of_reachable h).delivered

/-- The number of a closed connection is used again when the send to it is done. -/
theorem delivered_of_settled_reused :
    (system.exec {} [.initCreate 3, .initDone, .sendEnter ([49], 1),
      .getOrConnect ([49], 1) (.connected 4), .sendLock ⟨([49], 1), 4⟩, .sendWrite, .sendUnlock,
      .loopEnd ⟨([49], 1), 4⟩, .acceptReturn ([50], 2) 4, .acceptStep, .sendEnter ([50], 2),
      .getOrConnect ([50], 2) .noSocket, .sendLock ⟨([50], 2), 4⟩, .sendWrite]).Delivered :=
  delivered_of_settled (TransitionSystem.Reachable.exec (.init rfl) (by decide))

/-- A send waits for `sendMutex_` while its connection is closed and another peer is accepted
under the same number: the frame goes to that one. -/
theorem delivered_misdirected : ¬∀ s, system.Reachable s → s.Delivered := by
  intro hclaim
  have hrun : system.Reachable (system.exec {} [.initCreate 3, .initDone, .sendEnter ([49], 1),
      .getOrConnect ([49], 1) (.connected 4), .loopEnd ⟨([49], 1), 4⟩,
      .acceptReturn ([50], 2) 4, .sendLock ⟨([49], 1), 4⟩, .sendWrite]) :=
    .exec (.init rfl) (by decide)
  have hwrite := hclaim _ hrun (([49], 1), 2) (by decide)
  revert hwrite
  decide

end TcpSockets

end EmbedMq
