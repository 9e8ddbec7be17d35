import EmbedMq.Foundation.Descriptors
import EmbedMq.Foundation.Table
import EmbedMq.Foundation.Transition
import EmbedMq.Transport.Stations

/-!
# The sockets of the TCP transport

Every thread that makes or closes a socket of `TcpTransport`: the owner, which calls `init` and
`shutdown`, the thread of `acceptLoop`, any number of client loops and of senders. What a thread
does under `mutex_` is one step; the rest may be interleaved in any way. The system chooses the
descriptor number of a new socket among those that are not open.

`shutdown` may run while other threads still do; `init` may fail after it has made its socket.
Starting a second accept thread while there is one ends the process, so no step does that.
-/

namespace EmbedMq

namespace TcpTransport

/-- A key of `connections_`. -/
abbrev Key : Type := Bytes × UInt16

/-- A key and a number: a client loop, or a send that has looked up its socket. -/
@[ext] structure Entry where
  key : Key
  n : Nat
  deriving DecidableEq

/-- Where the thread of `acceptLoop` is. -/
inductive Acceptor where
  /-- There is none, or it has been joined. -/
  | none
  | waiting
  /-- `accept` has returned a socket. -/
  | holding (key : Key) (n : Nat)
  /-- The socket is in the table, and its client loop is not started yet. -/
  | spawning (key : Key) (n : Nat)
  | exited
  deriving DecidableEq

/-- The socket that is not in the table yet. -/
def Acceptor.held : Acceptor → Option Entry
  | .holding key n => some ⟨key, n⟩
  | _ => Option.none

/-- The thread has a socket. -/
def Acceptor.busy : Acceptor → Bool
  | .holding _ _ => true
  | .spawning _ _ => true
  | _ => false

/-- A call of `shutdown` that has found the transport active. -/
inductive Closing where
  | idle
  | closeListen
  | closeAll
  | join
  deriving DecidableEq

end TcpTransport

open TcpTransport

structure TcpSockets where
  os : Descriptors := {}
  /-- What each socket is connected to. -/
  peer : Nat → Option Key := fun _ => none
  active : Bool := false
  listenFd : Option Nat := none
  /-- The calls of `init` that have made their socket and have not returned. -/
  initialising : Nat := 0
  connections : Table Key Nat := ∅
  acceptor : Acceptor := .none
  loops : List Entry := []
  closing : Closing := .idle
  /-- Senders that have found the transport active. -/
  entered : List Key := []
  /-- Senders that have a descriptor and wait for `sendMutex_`. -/
  sends : List Entry := []
  /-- The sender that has `sendMutex_`. -/
  writer : Option Entry := none
  /-- For which key bytes were written to which socket. -/
  written : List (Key × Nat) := []

namespace TcpSockets

/-- What the system calls of `getOrConnect` do when there is no entry. -/
inductive Connect where
  | noSocket
  | refused (n : Nat)
  | connected (n : Nat)
  deriving DecidableEq

inductive Label where
  /-- `createTcp` in `init`. -/
  | initCreate (n : Nat)
  | initNoSocket
  /-- `bindAny` or `listen` fails. -/
  | initFail
  | initDone
  /-- `accept` returns a socket, or an error. -/
  | acceptReturn (key : Key) (n : Nat)
  | acceptError
  /-- The accept thread puts its socket into the table, or starts the client loop. -/
  | acceptStep
  /-- A sender finds the transport active. -/
  | sendEnter (key : Key)
  | getOrConnect (key : Key) (result : Connect)
  | sendLock (send : Entry)
  /-- One `SocketApi::send`. -/
  | sendWrite
  | sendUnlock
  /-- A client loop ends and calls `closeOwnedConnection`. -/
  | loopEnd (loop : Entry)
  /-- The steps of `shutdown`. -/
  | exchange
  | closeListen
  | closeAll
  | join

/-- A sender has the descriptor for its key. -/
def sendStart (s : TcpSockets) (key : Key) (n : Nat) : TcpSockets :=
  { s with entered := s.entered.erase key, sends := ⟨key, n⟩ :: s.sends }

/-- The part of `getOrConnect` that makes a socket. -/
def connect (s : TcpSockets) (key : Key) : Connect → TcpSockets
  | .noSocket => { s with entered := s.entered.erase key }
  | .refused n => { s with os := (s.os.create n).close n, entered := s.entered.erase key }
  | .connected n =>
      { s with
        os := s.os.create n
        peer := Function.update s.peer s.os.created (some key)
        connections := s.connections.insert key n
        loops := ⟨key, n⟩ :: s.loops }.sendStart key n

def getOrConnect (s : TcpSockets) (key : Key) (result : Connect) : TcpSockets :=
  match s.connections.lookup key with
  | some n => s.sendStart key n
  | none => s.connect key result

/-- Bytes get to a socket that is open and connected. -/
def write (s : TcpSockets) (send : Entry) : TcpSockets :=
  match s.os.holder send.n with
  | some k =>
      if s.os.Live send.n k ∧ (s.peer k).isSome then
        { s with written := s.written ++ [(send.key, k)] }
      else s
  | none => s

def closeOwnedConnection (s : TcpSockets) (loop : Entry) : TcpSockets :=
  if s.connections.lookup loop.key = some loop.n then
    { s with os := s.os.close loop.n, connections := s.connections.erase loop.key }
  else s

/-- The accept thread looks whether the transport is active. -/
def acceptNext (s : TcpSockets) : Acceptor := if s.active then .waiting else .exited

def acceptStep (s : TcpSockets) : Acceptor → TcpSockets
  | .holding key n =>
      { s with acceptor := .spawning key n, connections := s.connections.insert key n }
  | .spawning key n =>
      { s with acceptor := s.acceptNext, loops := ⟨key, n⟩ :: s.loops }
  | _ => s

def next (s : TcpSockets) : Label → TcpSockets
  | .initCreate n =>
      { s with os := s.os.create n, listenFd := some n, initialising := s.initialising + 1 }
  | .initNoSocket => { s with listenFd := none }
  | .initFail => { s with initialising := s.initialising - 1 }
  | .initDone =>
      { s with active := true, acceptor := .waiting, initialising := s.initialising - 1 }
  | .acceptReturn key n =>
      { s with
        os := s.os.create n
        peer := Function.update s.peer s.os.created (some key)
        acceptor := .holding key n }
  | .acceptError => { s with acceptor := s.acceptNext }
  | .acceptStep => s.acceptStep s.acceptor
  | .sendEnter key => { s with entered := key :: s.entered }
  | .getOrConnect key result => s.getOrConnect key result
  | .sendLock send => { s with sends := s.sends.erase send, writer := some send }
  | .sendWrite =>
      match s.writer with
      | some send => s.write send
      | none => s
  | .sendUnlock => { s with writer := none }
  | .loopEnd loop => { s.closeOwnedConnection loop with loops := s.loops.erase loop }
  | .exchange => if s.active then { s with active := false, closing := .closeListen } else s
  | .closeListen =>
      { s with
        os := s.listenFd.elim s.os s.os.close
        listenFd := none
        closing := .closeAll }
  | .closeAll =>
      { s with
        os := (s.connections.toList.map Prod.snd).foldl Descriptors.close s.os
        connections := ∅
        closing := .join }
  | .join => { s with acceptor := .none, closing := .idle }

/-- The number of a socket that `getOrConnect` makes. -/
def Connect.number : Connect → Option Nat
  | .noSocket => none
  | .refused n => some n
  | .connected n => some n

def Enabled (s : TcpSockets) : Label → Prop
  | .initCreate n => s.os.Free n
  | .initNoSocket => True
  | .initFail => 0 < s.initialising
  | .initDone => 0 < s.initialising ∧ s.acceptor = .none
  | .acceptReturn _ n => s.acceptor = .waiting ∧ s.os.Free n
  | .acceptError => s.acceptor = .waiting
  | .acceptStep => s.acceptor.busy = true
  | .sendEnter _ => s.active = true
  | .getOrConnect key result => key ∈ s.entered ∧ ∀ n ∈ result.number, s.os.Free n
  | .sendLock send => send ∈ s.sends ∧ s.writer = none
  | .sendWrite => s.writer.isSome
  | .sendUnlock => s.writer.isSome
  | .loopEnd loop => loop ∈ s.loops
  | .exchange => True
  | .closeListen => s.closing = .closeListen
  | .closeAll => s.closing = .closeAll
  | .join => s.closing = .join ∧ s.acceptor = .exited

instance (s : TcpSockets) : (l : Label) → Decidable (Enabled s l)
  | .initCreate _ => inferInstanceAs (Decidable (s.os.Free _))
  | .initNoSocket => isTrue trivial
  | .initFail => inferInstanceAs (Decidable (_ < _))
  | .initDone => inferInstanceAs (Decidable (_ ∧ _))
  | .acceptReturn _ _ => inferInstanceAs (Decidable (_ ∧ _))
  | .acceptError => inferInstanceAs (Decidable (_ = _))
  | .acceptStep => inferInstanceAs (Decidable (_ = _))
  | .sendEnter _ => inferInstanceAs (Decidable (_ = _))
  | .getOrConnect _ _ => inferInstanceAs (Decidable (_ ∧ _))
  | .sendLock _ => inferInstanceAs (Decidable (_ ∧ _))
  | .sendWrite => inferInstanceAs (Decidable (_ = _))
  | .sendUnlock => inferInstanceAs (Decidable (_ = _))
  | .loopEnd _ => inferInstanceAs (Decidable (_ ∈ _))
  | .exchange => isTrue trivial
  | .closeListen => inferInstanceAs (Decidable (_ = _))
  | .closeAll => inferInstanceAs (Decidable (_ = _))
  | .join => inferInstanceAs (Decidable (_ ∧ _))

/-- All interleavings on a transport that was just constructed. -/
def system : TransitionSystem TcpSockets Label where
  init s := s = {}
  enabled := Enabled
  next := next

instance (s : TcpSockets) (l : Label) : Decidable (system.enabled s l) :=
  inferInstanceAs (Decidable (Enabled s l))

/-- The transport has been shut down or was never active, and no call or thread of it is left but
senders. -/
def Quiet (s : TcpSockets) : Prop :=
  s.active = false ∧ s.closing = .idle ∧ s.acceptor = .none ∧ s.initialising = 0 ∧ s.loops = []

instance (s : TcpSockets) : Decidable s.Quiet := inferInstanceAs (Decidable (_ ∧ _))

/-- Every socket has been closed once. -/
def ClosedOnce (s : TcpSockets) : Prop := ∀ k, k < s.os.created → s.os.closes.count k = 1

/-- `init` does not fail after it has made its socket, is not called while there is a listening
socket, and no socket is accepted under a key that has an entry. -/
def Tidy (s : TcpSockets) : Label → Prop
  | .initCreate _ => s.listenFd = none
  | .initNoSocket => s.listenFd = none
  | .initFail => False
  | .acceptStep => ∀ entry ∈ s.acceptor.held, s.connections.lookup entry.key = none
  | _ => True

instance (s : TcpSockets) : (l : Label) → Decidable (s.Tidy l)
  | .initCreate _ => inferInstanceAs (Decidable (_ = _))
  | .initNoSocket => inferInstanceAs (Decidable (_ = _))
  | .initFail => isFalse id
  | .acceptStep => inferInstanceAs (Decidable (∀ entry ∈ s.acceptor.held, _))
  | .initDone | .acceptReturn _ _ | .acceptError | .sendEnter _ => isTrue trivial
  | .getOrConnect _ _ | .sendLock _ | .sendWrite | .sendUnlock | .loopEnd _ => isTrue trivial
  | .exchange | .closeListen | .closeAll | .join => isTrue trivial

instance (s : TcpSockets) (l : Label) : Decidable ((system.restrict Tidy).enabled s l) :=
  inferInstanceAs (Decidable (Enabled s l ∧ s.Tidy l))

theorem acceptNext_held (s : TcpSockets) : s.acceptNext.held = none := by
  rw [acceptNext]
  split <;> rfl

/-! ### Where descriptors are kept -/

inductive Place where
  | listener
  | acceptor
  | entry (key : Key)
  deriving DecidableEq

def place (s : TcpSockets) : Place → Option Nat
  | .listener => s.listenFd
  | .acceptor => s.acceptor.held.map Entry.n
  | .entry key => s.connections.lookup key

section Places

variable (s : TcpSockets)

theorem place_listenFd (x : Option Nat) :
    place { s with listenFd := x } = Function.update s.place .listener x := by
  funext o
  cases o <;> rfl

theorem place_acceptor (acceptor : Acceptor) :
    place { s with acceptor } = Function.update s.place .acceptor (acceptor.held.map Entry.n) := by
  funext o
  cases o <;> rfl

theorem place_insert (key : Key) (n : Nat) :
    place { s with connections := s.connections.insert key n } =
      Function.update s.place (.entry key) (some n) := by
  funext o
  cases o with
  | listener | acceptor => rfl
  | entry key' =>
      rw [Function.update_apply]
      simp [place, Table.lookup_insert_eq]

theorem place_erase (key : Key) :
    place { s with connections := s.connections.erase key } =
      Function.update s.place (.entry key) none := by
  funext o
  cases o with
  | listener | acceptor => rfl
  | entry key' =>
      rw [Function.update_apply]
      simp [place, Table.lookup_erase_eq]

theorem place_noConnections :
    place { s with connections := ∅ } = fun o =>
      if o ∈ (s.connections.toList.map fun entry => (Place.entry entry.1, entry.2)).map Prod.fst
        then none else s.place o := by
  funext o
  cases o with
  | listener | acceptor => simp [place]
  | entry key =>
      cases hlookup : s.connections.lookup key with
      | none => simp [place, hlookup]
      | some n =>
          have hmem := Table.mem_toList_iff.mpr hlookup
          rw [if_pos (List.mem_map.mpr ⟨_, List.mem_map.mpr ⟨_, hmem, rfl⟩, rfl⟩)]
          rfl

end Places

/-! ### Ownership -/

/-- A write changes nothing but what is recorded of it. -/
theorem write_shape (s : TcpSockets) (send : Entry) :
    ∃ written, s.write send = { s with written } := by
  unfold write
  split
  · split
    · exact ⟨_, rfl⟩
    · exact ⟨_, rfl⟩
  · exact ⟨_, rfl⟩

theorem sendWrite_shape (s : TcpSockets) : ∃ written, s.next .sendWrite = { s with written } := by
  cases hwriter : s.writer with
  | none =>
      have hstep : s.next .sendWrite = s := by simp only [next, hwriter]
      rw [hstep, ← hwriter]
      exact ⟨s.written, rfl⟩
  | some send =>
      have hstep : s.next .sendWrite = s.write send := by simp only [next, hwriter]
      rw [hstep, ← hwriter]
      exact write_shape s send

theorem getOrConnect_found {s : TcpSockets} {key : Key} {n : Nat}
    (h : s.connections.lookup key = some n) (result : Connect) :
    s.getOrConnect key result = s.sendStart key n := by
  simp only [getOrConnect, h]

theorem getOrConnect_none {s : TcpSockets} {key : Key} (h : s.connections.lookup key = none)
    (result : Connect) : s.getOrConnect key result = s.connect key result := by
  simp only [getOrConnect, h]

/-- Every number stays in one place, and a tidy step loses none. -/
structure Keeps (s t : TcpSockets) (tidy : Prop) : Prop where
  exclusive : t.os.Exclusive t.place
  covered : tidy → s.os.Covered s.place → t.os.Covered t.place

theorem keeps_of_eq {s t : TcpSockets} {tidy : Prop} {os : Descriptors}
    {place : Place → Option Nat} (hos : t.os = os) (hplace : t.place = place)
    (hexclusive : os.Exclusive place)
    (hcovered : tidy → s.os.Covered s.place → os.Covered place) : Keeps s t tidy := by
  subst hos hplace
  exact ⟨hexclusive, hcovered⟩

section Ownership

variable {s : TcpSockets} (h : s.os.Exclusive s.place)
include h

/-- A step that makes and closes no socket and changes no place. -/
theorem keeps_same {t : TcpSockets} {tidy : Prop} (hos : t.os = s.os) (hplace : t.place = s.place) :
    Keeps s t tidy :=
  keeps_of_eq hos hplace h fun _ hcovered => hcovered

/-- A step that only takes the accept thread from one place without a socket to another. -/
theorem keeps_idle {t : TcpSockets} {tidy : Prop} (hos : t.os = s.os)
    (hplace : t.place = Function.update s.place .acceptor (t.acceptor.held.map Entry.n))
    (hbefore : s.acceptor.held = none) (hafter : t.acceptor.held = none) : Keeps s t tidy := by
  have hempty : s.place .acceptor = none := by rw [place, hbefore, Option.map_none]
  refine keeps_same h hos ?_
  rw [hplace, hafter, Option.map_none, ← hempty, Function.update_eq_self]

theorem keeps_getOrConnect {key : Key} {result : Connect}
    (hfree : ∀ n ∈ result.number, s.os.Free n) (tidy : Prop) :
    Keeps s (s.getOrConnect key result) tidy := by
  cases hlookup : s.connections.lookup key with
  | some n =>
      rw [getOrConnect_found hlookup]
      exact keeps_same h rfl rfl
  | none =>
      rw [getOrConnect_none hlookup]
      cases result with
      | noSocket => exact keeps_same h rfl rfl
      | refused n =>
          have hn := hfree n rfl
          exact ⟨h.create_close hn, fun _ hcovered => hcovered.create_close h hn⟩
      | connected n =>
          have hn := hfree n rfl
          exact keeps_of_eq rfl (place_insert s key n) (h.create_put hn _)
            fun _ hcovered => hcovered.create_put h hn hlookup

theorem keeps_closeOwnedConnection (loop : Entry) (tidy : Prop) :
    Keeps s (s.closeOwnedConnection loop) tidy := by
  rw [closeOwnedConnection]
  split
  · rename_i hlookup
    have hentry : s.place (.entry loop.key) = some loop.n := hlookup
    exact keeps_of_eq rfl (place_erase s loop.key) (h.close hentry)
      fun _ hcovered => hcovered.close hentry
  · exact keeps_same h rfl rfl

theorem keeps_acceptStep :
    Keeps s (s.acceptStep s.acceptor)
      (∀ entry ∈ s.acceptor.held, s.connections.lookup entry.key = none) := by
  cases hacceptor : s.acceptor with
  | none | waiting | exited => exact keeps_same h rfl rfl
  | holding key n =>
      have hheld : s.place .acceptor = some n := by rw [place, hacceptor]; rfl
      have hplace : place (s.acceptStep (.holding key n)) =
          Function.update (Function.update s.place .acceptor none) (.entry key) (some n) := by
        have hmoved : place { s with acceptor := .spawning key n } =
            Function.update s.place .acceptor none := place_acceptor s (.spawning key n)
        rw [← hmoved]
        exact place_insert { s with acceptor := .spawning key n } key n
      exact keeps_of_eq rfl hplace (h.move hheld _)
        fun htidy hcovered => hcovered.move hheld (htidy ⟨key, n⟩ rfl)
  | spawning key n =>
      exact keeps_idle h rfl (place_acceptor s s.acceptNext) (by rw [hacceptor]; rfl)
        (acceptNext_held s)

theorem keeps_closeAll (tidy : Prop) : Keeps s (s.next .closeAll) tidy := by
  have hnumbers : s.connections.toList.map Prod.snd =
      (s.connections.toList.map fun entry => (Place.entry entry.1, entry.2)).map Prod.snd := by
    rw [List.map_map]
    rfl
  have hnodup : ((s.connections.toList.map fun entry =>
      (Place.entry entry.1, entry.2)).map Prod.fst).Nodup := by
    have hkeys := s.connections.nodup_keys.map (f := Place.entry) fun a b heq => by
      cases heq
      rfl
    rwa [List.map_map] at hkeys ⊢
  have hentries : ∀ entry ∈ s.connections.toList.map fun entry =>
      (Place.entry entry.1, entry.2), s.place entry.1 = some entry.2 := by
    intro entry hentry
    obtain ⟨pair, hpair, rfl⟩ := List.mem_map.mp hentry
    exact Table.mem_toList_iff.mp hpair
  obtain ⟨hexclusive, hcovers⟩ := Descriptors.close_all hnodup hentries h
  rw [← hnumbers, ← place_noConnections] at hexclusive hcovers
  exact ⟨hexclusive, fun _ => hcovers⟩

theorem keeps_closeListen (tidy : Prop) : Keeps s (s.next .closeListen) tidy := by
  cases hlisten : s.listenFd with
  | none =>
      refine keeps_same h ?_ ?_
      · simp [next, hlisten]
      · funext o
        cases o <;> simp [place, next, hlisten]
  | some n =>
      have hos : (s.next .closeListen).os = s.os.close n := by simp [next, hlisten]
      have hplace : (s.next .closeListen).place = Function.update s.place .listener none :=
        place_listenFd s none
      exact keeps_of_eq hos hplace (h.close hlisten) fun _ hcovered => hcovered.close hlisten

/-- One step, in terms of who keeps which number. -/
theorem keeps_next {l : Label} (hl : Enabled s l) : Keeps s (s.next l) (s.Tidy l) := by
  cases l with
  | initCreate n =>
      exact keeps_of_eq rfl (place_listenFd s (some n)) (h.create_put hl _)
        fun htidy hcovered => hcovered.create_put h hl htidy
  | initNoSocket =>
      refine keeps_of_eq rfl (place_listenFd s none) (h.forget _) fun htidy hcovered => ?_
      have hnone : s.place .listener = none := htidy
      rw [← hnone, Function.update_eq_self]
      exact hcovered
  | acceptReturn key n =>
      obtain ⟨hwaiting, hfree⟩ := hl
      have hheld : s.place .acceptor = none := by rw [place, hwaiting]; rfl
      exact keeps_of_eq rfl (place_acceptor s (.holding key n)) (h.create_put hfree _)
        fun _ hcovered => hcovered.create_put h hfree hheld
  | acceptError =>
      have hwaiting : s.acceptor = .waiting := hl
      exact keeps_idle h rfl (place_acceptor s s.acceptNext) (by rw [hwaiting]; rfl)
        (acceptNext_held s)
  | initDone => exact keeps_idle h rfl (place_acceptor s .waiting) (by rw [hl.2]; rfl) rfl
  | join => exact keeps_idle h rfl (place_acceptor s .none) (by rw [hl.2]; rfl) rfl
  | acceptStep => exact keeps_acceptStep h
  | getOrConnect key result => exact keeps_getOrConnect h hl.2 _
  | loopEnd loop =>
      have hkeeps := keeps_closeOwnedConnection h loop True
      exact ⟨hkeeps.exclusive, fun _ => hkeeps.covered trivial⟩
  | closeListen => exact keeps_closeListen h _
  | closeAll => exact keeps_closeAll h _
  | exchange =>
      rw [next]
      split
      · exact keeps_same h rfl rfl
      · exact keeps_same h rfl rfl
  | sendWrite =>
      obtain ⟨written, hwritten⟩ := sendWrite_shape s
      rw [hwritten]
      exact keeps_same h rfl rfl
  | initFail | sendEnter | sendLock | sendUnlock => exact keeps_same h rfl rfl

end Ownership

theorem exclusive_of_reachable {s : TcpSockets} (h : system.Reachable s) :
    s.os.Exclusive s.place := by
  induction h with
  | @init s hinit =>
      obtain rfl : s = {} := hinit
      have hnone : ∀ o n, place {} o ≠ some n := by
        intro o n
        cases o <;> simp [place, Acceptor.held]
      exact ⟨⟨fun _ _ hk => (by cases hk), fun _ hk => (by cases hk),
        fun _ _ _ hk => (by cases hk)⟩, fun o _ n ho => absurd ho (hnone o n),
        fun o n ho => absurd ho (hnone o n), List.nodup_nil⟩
  | step _ hl ih => exact (keeps_next ih hl).exclusive

/-! ### Every socket is closed once -/

/-- What `init` and `shutdown` work on is left as it is. -/
structure Beside (s t : TcpSockets) : Prop where
  listenFd : t.listenFd = s.listenFd
  active : t.active = s.active
  initialising : t.initialising = s.initialising
  closing : t.closing = s.closing

theorem beside_getOrConnect (s : TcpSockets) (key : Key) (result : Connect) :
    Beside s (s.getOrConnect key result) := by
  cases hlookup : s.connections.lookup key with
  | some n =>
      rw [getOrConnect_found hlookup]
      exact ⟨rfl, rfl, rfl, rfl⟩
  | none =>
      rw [getOrConnect_none hlookup]
      cases result <;> exact ⟨rfl, rfl, rfl, rfl⟩

theorem beside_acceptStep (s : TcpSockets) : Beside s (s.acceptStep s.acceptor) := by
  cases hacceptor : s.acceptor <;> exact ⟨rfl, rfl, rfl, rfl⟩

theorem beside_loopEnd (s : TcpSockets) (loop : Entry) : Beside s (s.next (.loopEnd loop)) := by
  rw [next, closeOwnedConnection]
  split <;> exact ⟨rfl, rfl, rfl, rfl⟩

/-- What holds in tidy runs: no socket is lost, and for each descriptor that is kept there is
somebody left who will close it. -/
structure Inv (s : TcpSockets) : Prop where
  covered : s.os.Covered s.place
  listening : ∀ n, s.listenFd = some n →
    s.active = true ∨ 0 < s.initialising ∨ s.closing = .closeListen
  looped : ∀ key n, s.connections.lookup key = some n →
    s.acceptor = .spawning key n ∨ ⟨key, n⟩ ∈ s.loops

namespace Inv

variable {s : TcpSockets} (h : Inv s)
include h

theorem closedOnce (hexclusive : s.os.Exclusive s.place) (hquiet : s.Quiet) : s.ClosedOnce := by
  obtain ⟨hactive, hclosing, hacceptor, hinitialising, hloops⟩ := hquiet
  refine fun k hk => h.covered.count_closes hexclusive (fun o => ?_) hk
  cases o with
  | listener =>
      cases hlisten : s.listenFd with
      | none => exact hlisten
      | some n =>
          have hleft := h.listening n hlisten
          rw [hactive, hinitialising, hclosing] at hleft
          simp at hleft
  | acceptor =>
      rw [place, hacceptor]
      rfl
  | entry key =>
      cases hlookup : s.connections.lookup key with
      | none => exact hlookup
      | some n =>
          have hleft := h.looped key n hlookup
          rw [hacceptor, hloops] at hleft
          simp at hleft

theorem looped_getOrConnect {key : Key} {result : Connect} {key' : Key} {n : Nat}
    (hentry : (s.getOrConnect key result).connections.lookup key' = some n) :
    (s.getOrConnect key result).acceptor = .spawning key' n ∨
      ⟨key', n⟩ ∈ (s.getOrConnect key result).loops := by
  cases hlookup : s.connections.lookup key with
  | some m =>
      rw [getOrConnect_found hlookup] at hentry ⊢
      exact h.looped key' n hentry
  | none =>
      rw [getOrConnect_none hlookup] at hentry ⊢
      cases result with
      | noSocket => exact h.looped key' n hentry
      | refused m => exact h.looped key' n hentry
      | connected m =>
          change (s.connections.insert key m).lookup key' = some n at hentry
          rw [Table.lookup_insert_eq] at hentry
          split at hentry
          · rename_i heq
            rw [heq, ← Option.some.inj hentry]
            exact .inr List.mem_cons_self
          · exact (h.looped key' n hentry).imp_right (List.mem_cons_of_mem _)

/-- The loop of an entry that stays is not the one that ends. -/
theorem looped_loopEnd {loop : Entry} {key : Key} {n : Nat}
    (hentry : (s.next (.loopEnd loop)).connections.lookup key = some n) :
    (s.next (.loopEnd loop)).acceptor = .spawning key n ∨
      ⟨key, n⟩ ∈ (s.next (.loopEnd loop)).loops := by
  have hkept : s.connections.lookup key = some n ∧ loop ≠ ⟨key, n⟩ := by
    change (s.closeOwnedConnection loop).connections.lookup key = some n at hentry
    rw [closeOwnedConnection] at hentry
    split at hentry
    · change (s.connections.erase loop.key).lookup key = some n at hentry
      rw [Table.lookup_erase_eq] at hentry
      split at hentry
      · cases hentry
      · rename_i hne
        exact ⟨hentry, fun heq => hne (by rw [heq])⟩
    · rename_i hother
      refine ⟨hentry, fun heq => ?_⟩
      rw [heq] at hother
      exact hother hentry
  have hacceptor : (s.next (.loopEnd loop)).acceptor = s.acceptor := by
    change (s.closeOwnedConnection loop).acceptor = s.acceptor
    rw [closeOwnedConnection]
    split <;> rfl
  rw [hacceptor]
  exact (h.looped key n hkept.1).imp_right fun hmem =>
    (List.mem_erase_of_ne (Ne.symm hkept.2)).mpr hmem

theorem looped_acceptStep {key : Key} {n : Nat}
    (hentry : (s.acceptStep s.acceptor).connections.lookup key = some n) :
    (s.acceptStep s.acceptor).acceptor = .spawning key n ∨
      ⟨key, n⟩ ∈ (s.acceptStep s.acceptor).loops := by
  cases hacceptor : s.acceptor with
  | none | waiting | exited =>
      rw [hacceptor] at hentry
      exact h.looped key n hentry
  | holding key' m =>
      rw [hacceptor] at hentry
      change (s.connections.insert key' m).lookup key = some n at hentry
      rw [Table.lookup_insert_eq] at hentry
      split at hentry
      · rename_i heq
        rw [heq, ← Option.some.inj hentry]
        exact .inl rfl
      · obtain hspawning | hmem := h.looped key n hentry
        · rw [hacceptor] at hspawning
          cases hspawning
        · exact .inr hmem
  | spawning key' m =>
      rw [hacceptor] at hentry
      obtain hspawning | hmem := h.looped key n hentry
      · rw [hacceptor] at hspawning
        cases hspawning
        exact .inr List.mem_cons_self
      · exact .inr (List.mem_cons_of_mem _ hmem)

/-- While the accept thread has no socket, every entry has its loop. -/
theorem mem_loops (hidle : s.acceptor.busy = false) {key : Key} {n : Nat}
    (hentry : s.connections.lookup key = some n) : ⟨key, n⟩ ∈ s.loops := by
  refine (h.looped key n hentry).resolve_left fun hspawning => ?_
  rw [hspawning] at hidle
  cases hidle

theorem listening_beside {t : TcpSockets} (hbeside : Beside s t) {n : Nat}
    (hlisten : t.listenFd = some n) :
    t.active = true ∨ 0 < t.initialising ∨ t.closing = .closeListen := by
  rw [hbeside.active, hbeside.initialising, hbeside.closing]
  exact h.listening n (hbeside.listenFd ▸ hlisten)

/-- Past the step that closes the listening socket. -/
theorem listening_of_ne (hphase : s.closing ≠ .closeListen) {n : Nat}
    (hlisten : s.listenFd = some n) : s.active = true ∨ 0 < s.initialising :=
  (h.listening n hlisten).imp_right fun hrest => hrest.resolve_right hphase

theorem listening_next {l : Label} (hl : Enabled s l) (htidy : s.Tidy l) (n : Nat)
    (hlisten : (s.next l).listenFd = some n) :
    (s.next l).active = true ∨ 0 < (s.next l).initialising ∨
      (s.next l).closing = .closeListen := by
  cases l with
  | initCreate m => exact .inr (.inl (Nat.succ_pos _))
  | initNoSocket => cases hlisten
  | initFail => exact htidy.elim
  | initDone => exact .inl rfl
  | exchange =>
      rw [TcpSockets.next] at hlisten ⊢
      by_cases hactive : s.active = true
      · rw [if_pos hactive]
        exact .inr (.inr rfl)
      · rw [if_neg hactive] at hlisten ⊢
        exact h.listening n hlisten
  | closeListen => cases hlisten
  | closeAll =>
      have hphase : s.closing = .closeAll := hl
      exact (h.listening_of_ne (by rw [hphase]; simp) hlisten).imp_right .inl
  | join => exact (h.listening_of_ne (by rw [hl.1]; simp) hlisten).imp_right .inl
  | getOrConnect key result => exact h.listening_beside (beside_getOrConnect s key result) hlisten
  | acceptStep => exact h.listening_beside (beside_acceptStep s) hlisten
  | loopEnd loop => exact h.listening_beside (beside_loopEnd s loop) hlisten
  | sendWrite =>
      obtain ⟨written, hwritten⟩ := sendWrite_shape s
      rw [hwritten] at hlisten ⊢
      exact h.listening n hlisten
  | acceptReturn | acceptError | sendEnter | sendLock | sendUnlock => exact h.listening n hlisten

theorem looped_next {l : Label} (hl : Enabled s l) (key : Key) (n : Nat)
    (hentry : (s.next l).connections.lookup key = some n) :
    (s.next l).acceptor = .spawning key n ∨ ⟨key, n⟩ ∈ (s.next l).loops := by
  cases l with
  | initDone => exact .inr (h.mem_loops (by rw [hl.2]; rfl) hentry)
  | acceptReturn => exact .inr (h.mem_loops (by rw [hl.1]; rfl) hentry)
  | acceptError =>
      have hwaiting : s.acceptor = .waiting := hl
      exact .inr (h.mem_loops (by rw [hwaiting]; rfl) hentry)
  | join => exact .inr (h.mem_loops (by rw [hl.2]; rfl) hentry)
  | acceptStep => exact h.looped_acceptStep hentry
  | getOrConnect => exact h.looped_getOrConnect hentry
  | loopEnd loop => exact h.looped_loopEnd hentry
  | closeAll => cases hentry
  | exchange =>
      rw [TcpSockets.next] at hentry ⊢
      by_cases hactive : s.active = true
      · rw [if_pos hactive] at hentry ⊢
        exact h.looped key n hentry
      · rw [if_neg hactive] at hentry ⊢
        exact h.looped key n hentry
  | sendWrite =>
      obtain ⟨written, hwritten⟩ := sendWrite_shape s
      rw [hwritten] at hentry ⊢
      exact h.looped key n hentry
  | initCreate | initNoSocket | initFail | closeListen | sendEnter | sendLock | sendUnlock =>
      exact h.looped key n hentry

theorem next (hexclusive : s.os.Exclusive s.place) {l : Label} (hl : Enabled s l)
    (htidy : s.Tidy l) : Inv (s.next l) := by
  refine ⟨(keeps_next hexclusive hl).covered htidy h.covered, ?_, ?_⟩
  · exact h.listening_next hl htidy
  · exact h.looped_next hl

end Inv

theorem inv_of_reachable {s : TcpSockets} (h : (system.restrict Tidy).Reachable s) : Inv s := by
  refine h.invariant (fun s hinit => ?_) fun s l hreach hinv hl =>
    hinv.next (exclusive_of_reachable hreach.of_restrict) hl.1 hl.2
  obtain rfl : s = {} := hinit
  exact ⟨fun k hk => absurd hk (Nat.not_lt_zero k), fun n hn => (by cases hn),
    fun key n hn => (by cases hn)⟩

/-- Each socket has been closed once when the transport is shut down and its client loops have
ended. -/
theorem closedOnce_of_tidy {s : TcpSockets} (h : (system.restrict Tidy).Reachable s)
    (hquiet : s.Quiet) : s.ClosedOnce :=
  (inv_of_reachable h).closedOnce (exclusive_of_reachable h.of_restrict) hquiet

theorem closedOnce_of_tidy_run :
    (system.exec {} [.initCreate 3, .initDone, .acceptReturn ([49], 1) 4, .acceptStep, .acceptStep,
      .sendEnter ([50], 2), .getOrConnect ([50], 2) (.connected 5), .loopEnd ⟨([49], 1), 4⟩,
      .exchange, .closeListen, .closeAll, .loopEnd ⟨([50], 2), 5⟩, .acceptError,
      .join]).ClosedOnce :=
  closedOnce_of_tidy (TransitionSystem.Reachable.exec (.init rfl) (by decide)) (by decide)

/-- `init` makes its socket and cannot bind it: nobody closes it. -/
theorem closedOnce_initFail : ¬∀ s, system.Reachable s → s.Quiet → s.ClosedOnce := by
  intro hclaim
  have hrun : system.Reachable (system.exec {} [.initCreate 3, .initFail]) :=
    .exec (.init rfl) (by decide)
  have hclosed := hclaim _ hrun (by decide) 0 (by decide)
  revert hclosed
  decide

/-- A peer is accepted again under a key whose old client loop has not ended. -/
def acceptedAgain : List Label :=
  [.initCreate 3, .initDone, .acceptReturn ([49], 1) 4, .acceptStep, .acceptStep,
    .acceptReturn ([49], 1) 5, .acceptStep, .acceptStep, .loopEnd ⟨([49], 1), 4⟩, .exchange,
    .closeListen, .closeAll, .loopEnd ⟨([49], 1), 5⟩, .acceptError, .join]

/-- Nobody closes the first of the two sockets either. -/
example : system.Admits {} acceptedAgain ∧ (system.exec {} acceptedAgain).Quiet ∧
    1 ∉ (system.exec {} acceptedAgain).os.closes := by decide

end TcpSockets

end EmbedMq
