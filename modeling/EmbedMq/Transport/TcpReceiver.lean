import EmbedMq.Foundation.Lists
import EmbedMq.Foundation.Transition
import EmbedMq.Core.Types

/-!
# The threads of the TCP transport

`acceptLoop`, a `clientLoop` for each connection, and a call of `shutdown`, which closes all
sockets, joins the accept thread and then waits on `clientCv_` until no client loop is counted.

What `close` does to a thread that is already inside `accept` or `recv` on the same socket depends
on the system: `wakes` says whether the call returns. A system that does not wake such a thread
keeps the socket alive for it.

A connection is seen message by message here; how messages are cut out of the stream is the
subject of `TcpStream`. That a key is accepted twice is the subject of `TcpSockets`, and the number
of a closed descriptor is not given out again. Senders make connections only while no call of
`shutdown` is under way, since the transport manager calls both under its mutex.
-/

namespace EmbedMq

/-- Where `acceptLoop` is. -/
inductive AcceptLoop where
  /-- Before the test of `active_`. -/
  | check
  /-- Before `accept`. -/
  | call
  /-- In `accept`, with nothing to return. -/
  | accepting
  /-- Has a connection, with what is there to be read and whether the peer has ended it. -/
  | holding (pending : List Bytes) (ended : Bool)
  /-- Has put connection `c` into `connections_`. -/
  | spawning (c : Nat)
  | sleeping
  | exited
  deriving DecidableEq

/-- Where `clientLoop` is. -/
inductive ClientLoop where
  | check
  /-- Before `recv`. -/
  | call
  /-- In `recv`, and waits. -/
  | receiving
  | received (msg : Bytes)
  /-- In `recvCb_`. -/
  | inCallback
  /-- Before `closeOwnedConnection`. -/
  | leaving
  /-- Before `clientThreadCount_` is decremented. -/
  | finishing
  /-- Was the last, and wants `clientCvMutex_` for the notification. -/
  | notifying
  | exited
  deriving DecidableEq

/-- A connection. -/
structure TcpLine where
  /-- The messages that have arrived in full and were not read yet. -/
  pending : List Bytes := []
  /-- The peer has closed the connection, or sent a length that is not accepted. -/
  ended : Bool := false
  inTable : Bool := false
  closed : Bool := false
  /-- The client loop, when it was started. -/
  loop : Option ClientLoop := none

/-- Where the call of `shutdown` is that has found the transport active. -/
inductive TcpShutdown where
  | none
  | closeListen
  | closeAll
  /-- In `acceptThread_.join()`. -/
  | joining
  /-- Before `clientCvMutex_`, also after a notification. -/
  | locking
  /-- Holds `clientCvMutex_`, before the test of the count. -/
  | testing
  /-- The count was not zero. -/
  | blocking
  /-- Has given up the mutex and waits. -/
  | waiting
  | returned
  deriving DecidableEq

/-- The call holds `clientCvMutex_`. -/
def TcpShutdown.holds : TcpShutdown → Bool
  | .testing => true
  | .blocking => true
  | _ => false

/-- The connections that were in the table have been closed. -/
def TcpShutdown.hasClosed : TcpShutdown → Bool
  | .none => false
  | .closeListen => false
  | .closeAll => false
  | _ => true

theorem TcpShutdown.past {place : TcpShutdown} (h : place.hasClosed = true) :
    ¬ (place = .none ∨ place = .closeListen) := by
  rintro (rfl | rfl)
  · cases h
  · cases h

/-- The accept thread was joined. -/
def TcpShutdown.hasJoined : TcpShutdown → Bool
  | .locking => true
  | .testing => true
  | .blocking => true
  | .waiting => true
  | .returned => true
  | _ => false

/-- `clientThreadCount_` counts the loop. -/
def ClientLoop.counted : ClientLoop → Nat
  | .notifying => 0
  | .exited => 0
  | _ => 1

/-- The loop has found the transport active, and reads. -/
def ClientLoop.reads : ClientLoop → Bool
  | .call => true
  | .receiving => true
  | .received _ => true
  | .inCallback => true
  | _ => false

/-- The loop has given up its socket. -/
def ClientLoop.hasLeft : ClientLoop → Bool
  | .finishing => true
  | .notifying => true
  | .exited => true
  | _ => false

namespace TcpLine

/-- A call of `recv` has something to return. -/
def Fed (line : TcpLine) : Prop := line.pending ≠ [] ∨ line.ended = true

instance (line : TcpLine) : Decidable line.Fed := inferInstanceAs (Decidable (_ ∨ _))

def moveTo (line : TcpLine) (loop : ClientLoop) : TcpLine := { line with loop := some loop }

/-- What the calls of `recv` for one message lead to, or what comes of it if there is none. -/
def recv (otherwise : ClientLoop) (line : TcpLine) : TcpLine :=
  match line.pending with
  | msg :: rest => { line with pending := rest, loop := some (.received msg) }
  | [] => line.moveTo (if line.ended then .leaving else otherwise)

def close (line : TcpLine) : TcpLine :=
  if line.inTable then { line with closed := true, inTable := false } else line

/-- One step of the client loop. -/
def step (active callback last : Bool) (line : TcpLine) : TcpLine :=
  match line.loop with
  | none => line
  | some .check => line.moveTo (if active then .call else .leaving)
  | some .call => if line.closed then line.moveTo .leaving else line.recv .receiving
  | some .receiving => line.recv .leaving
  | some (.received _) => line.moveTo (if callback then .inCallback else .check)
  | some .inCallback => line.moveTo .check
  | some .leaving => line.close.moveTo .finishing
  | some .finishing => line.moveTo (if last then .notifying else .exited)
  | some .notifying => line.moveTo .exited
  | some .exited => line

/-- What the step hands to the callback. -/
def hands (callback : Bool) (line : TcpLine) : List Bytes :=
  match line.loop with
  | some (.received msg) => if callback then [msg] else []
  | _ => []

def counted (line : TcpLine) : Nat := line.loop.elim 0 ClientLoop.counted

/-- What is known of a connection of the table, before and after the table was emptied. -/
structure Sound (emptied : Bool) (line : TcpLine) : Prop where
  owned : line.inTable = true ∨ line.closed = true
  left : ∀ loop ∈ line.loop, loop.hasLeft = true → line.closed = true
  cut : emptied = true → ∀ loop ∈ line.loop, loop.reads = true → line.closed = true

theorem Sound.moveTo {emptied : Bool} {line : TcpLine} {loop : ClientLoop}
    (h : line.Sound emptied) (hleft : loop.hasLeft = true → line.closed = true)
    (hcut : emptied = true → loop.reads = true → line.closed = true) :
    (line.moveTo loop).Sound emptied where
  owned := h.owned
  left := by
    rintro _ ⟨⟩
    exact hleft
  cut hemptied := by
    rintro _ ⟨⟩
    exact hcut hemptied

theorem close_closed {emptied : Bool} {line : TcpLine} (h : line.Sound emptied) :
    line.close.closed = true := by
  rw [close]
  split
  · rfl
  · rename_i hout
    exact h.owned.resolve_left hout

theorem close_loop (line : TcpLine) : line.close.loop = line.loop := by
  rw [close]
  split <;> rfl

/-- After its descriptor was closed, everything is known of a connection. -/
theorem Sound.of_closed {emptied : Bool} {line : TcpLine} (h : line.closed = true) :
    line.Sound emptied :=
  ⟨.inr h, fun _ _ _ => h, fun _ _ _ _ => h⟩

theorem Sound.recv {emptied : Bool} {line : TcpLine} (h : line.Sound emptied)
    {otherwise : ClientLoop} (hcut : emptied = true → line.closed = true)
    (hleft : otherwise.hasLeft = false) : (line.recv otherwise).Sound emptied := by
  rw [TcpLine.recv]
  split
  · exact ⟨h.owned, by rintro _ ⟨⟩ ⟨⟩, fun hemptied _ _ _ => hcut hemptied⟩
  · split
    · exact h.moveTo (by rintro ⟨⟩) (by rintro _ ⟨⟩)
    · exact h.moveTo (fun hgone => by rw [hleft] at hgone; cases hgone) fun hemptied _ =>
        hcut hemptied

/-- The step of a client loop. -/
theorem Sound.step {emptied : Bool} {line : TcpLine} (h : line.Sound emptied) {active : Bool}
    (hactive : active = true → emptied = false) (callback last : Bool) :
    (line.step active callback last).Sound emptied := by
  obtain hloop | ⟨loop, hloop⟩ := Option.eq_none_or_eq_some line.loop
  · simpa only [TcpLine.step, hloop] using h
  · have hleft := h.left loop hloop
    have hcut := fun hemptied => h.cut hemptied loop hloop
    cases loop with
    | check =>
        simp only [TcpLine.step, hloop]
        split
        · rename_i hup
          refine h.moveTo (by rintro ⟨⟩) fun hemptied => ?_
          rw [hactive hup] at hemptied
          cases hemptied
        · exact h.moveTo (by rintro ⟨⟩) (by rintro _ ⟨⟩)
    | call =>
        simp only [TcpLine.step, hloop]
        split
        · exact h.moveTo (by rintro ⟨⟩) (by rintro _ ⟨⟩)
        · exact h.recv (fun hemptied => hcut hemptied rfl) rfl
    | receiving =>
        simp only [TcpLine.step, hloop]
        exact h.recv (fun hemptied => hcut hemptied rfl) rfl
    | received msg =>
        simp only [TcpLine.step, hloop]
        split
        · exact h.moveTo (by rintro ⟨⟩) fun hemptied _ => hcut hemptied rfl
        · exact h.moveTo (by rintro ⟨⟩) (by rintro _ ⟨⟩)
    | inCallback =>
        simp only [TcpLine.step, hloop]
        exact h.moveTo (by rintro ⟨⟩) (by rintro _ ⟨⟩)
    | leaving =>
        simp only [TcpLine.step, hloop]
        exact .of_closed (close_closed h)
    | exited => simpa only [TcpLine.step, hloop] using h
    | _ =>
        simp only [TcpLine.step, hloop]
        exact .of_closed (hleft rfl)

theorem recv_loop_ne (line : TcpLine) (otherwise : ClientLoop) :
    (line.recv otherwise).loop ≠ none := by
  rw [recv]
  split <;> rintro ⟨⟩

/-- A step does not start a loop. -/
theorem step_eq_none (line : TcpLine) (active callback last : Bool) :
    (line.step active callback last).loop = none ↔ line.loop = none := by
  obtain hloop | ⟨loop, hloop⟩ := Option.eq_none_or_eq_some line.loop
  · simp only [step, hloop]
  · rw [hloop]
    refine iff_of_false ?_ (by rintro ⟨⟩)
    cases loop with
    | call =>
        simp only [step, hloop]
        split
        · rintro ⟨⟩
        · exact recv_loop_ne _ _
    | receiving =>
        simp only [step, hloop]
        exact recv_loop_ne _ _
    | exited => simp [step, hloop]
    | _ =>
        simp only [step, hloop]
        rintro ⟨⟩

/-- Only the decrement of the count changes whether a loop is counted. -/
theorem counted_step (line : TcpLine) (active callback last : Bool) :
    (line.step active callback last).counted =
      if line.loop = some .finishing then 0 else line.counted := by
  have hrecv : ∀ otherwise : ClientLoop, otherwise.counted = 1 →
      (line.recv otherwise).counted = 1 := by
    intro otherwise hone
    rw [recv]
    split
    · rfl
    · split
      · rfl
      · exact hone
  obtain hloop | ⟨loop, hloop⟩ := Option.eq_none_or_eq_some line.loop
  · simp [step, counted, hloop]
  · cases loop with
    | call =>
        simp only [step, hloop, counted, Option.elim_some]
        split
        · rfl
        · exact hrecv .receiving rfl
    | receiving =>
        simp only [step, hloop]
        rw [hrecv .leaving rfl, counted, hloop]
        rfl
    | check => cases active <;> simp [step, counted, hloop, moveTo, ClientLoop.counted]
    | received msg => cases callback <;> simp [step, counted, hloop, moveTo, ClientLoop.counted]
    | finishing => cases last <;> simp [step, hloop, moveTo, counted, ClientLoop.counted]
    | _ => simp [step, counted, hloop, moveTo, ClientLoop.counted]

end TcpLine

structure TcpReceiver where
  active : Bool := true
  /-- The listening socket is open. -/
  listening : Bool := true
  /-- The connections that wait to be accepted. -/
  backlog : List (List Bytes × Bool) := []
  acceptLoop : AcceptLoop := .check
  lines : List TcpLine := []
  callback : Bool := false
  stop : TcpShutdown := .none
  /-- What the callback was called with, and for which connection. -/
  calls : List (Nat × Bytes) := []

namespace TcpReceiver

/-- `clientThreadCount_`. -/
def clientThreadCount (s : TcpReceiver) : Nat := (s.lines.map TcpLine.counted).sum

inductive Label where
  /-- A peer connects; messages may arrive before the connection is accepted. -/
  | incoming (pending : List Bytes) (ended : Bool)
  | message (c : Nat) (msg : Bytes)
  | hangUp (c : Nat)
  /-- `accept` fails. -/
  | acceptError
  /-- `getOrConnect` makes a connection. -/
  | connect
  | setRecvCallback
  | shutdown
  /-- `clientCv_.wait` wakes up without a notification. -/
  | spurious
  /-- A step of the accept thread, of a client loop, and of the call of `shutdown`. -/
  | accept
  | client (c : Nat)
  | stop

/-- `accept` has returned no socket. -/
def acceptFailed (s : TcpReceiver) : TcpReceiver :=
  { s with acceptLoop := if s.active then .sleeping else .exited }

/-- One step of `acceptLoop`. -/
def accept (s : TcpReceiver) : TcpReceiver :=
  match s.acceptLoop with
  | .check => { s with acceptLoop := if s.active then .call else .exited }
  | .call =>
      if s.listening then
        match s.backlog with
        | (pending, ended) :: rest =>
            { s with backlog := rest, acceptLoop := .holding pending ended }
        | [] => { s with acceptLoop := .accepting }
      else s.acceptFailed
  | .accepting =>
      match s.backlog with
      | (pending, ended) :: rest => { s with backlog := rest, acceptLoop := .holding pending ended }
      | [] => s.acceptFailed
  | .holding pending ended =>
      { s with
        lines := s.lines ++ [{ pending, ended, inTable := true }]
        acceptLoop := .spawning s.lines.length }
  | .spawning c => { s with lines := s.lines.modify c (·.moveTo .check), acceptLoop := .check }
  | .sleeping => { s with acceptLoop := .check }
  | .exited => s

/-- One step of a client loop. The last one that finishes notifies the call of `shutdown`. -/
def client (s : TcpReceiver) (c : Nat) : TcpReceiver :=
  match s.lines[c]? with
  | none => s
  | some line =>
      { s with
        lines := s.lines.modify c (·.step s.active s.callback (s.clientThreadCount == 1))
        calls := s.calls ++ (line.hands s.callback).map (Prod.mk c)
        stop := if line.loop = some .notifying ∧ s.stop = .waiting then .locking else s.stop }

def shutdown (s : TcpReceiver) : TcpReceiver :=
  if s.active then { s with active := false, stop := .closeListen } else s

/-- One step of the call of `shutdown`. -/
def stopping (s : TcpReceiver) : TcpReceiver :=
  match s.stop with
  | .none => s
  | .closeListen => { s with listening := false, stop := .closeAll }
  | .closeAll => { s with lines := s.lines.map TcpLine.close, stop := .joining }
  | .joining => { s with stop := .locking }
  | .locking => { s with stop := .testing }
  | .testing => { s with stop := if s.clientThreadCount = 0 then .returned else .blocking }
  | .blocking => { s with stop := .waiting }
  | .waiting => s
  | .returned => s

def next (s : TcpReceiver) : Label → TcpReceiver
  | .incoming pending ended => { s with backlog := s.backlog ++ [(pending, ended)] }
  | .message c msg =>
      { s with
        lines := s.lines.modify c fun line => { line with pending := line.pending ++ [msg] } }
  | .hangUp c => { s with lines := s.lines.modify c fun line => { line with ended := true } }
  | .acceptError => s.acceptFailed
  | .connect => { s with lines := s.lines ++ [{ inTable := true, loop := some .check }] }
  | .setRecvCallback => { s with callback := true }
  | .shutdown => s.shutdown
  | .spurious => { s with stop := .locking }
  | .accept => s.accept
  | .client c => s.client c
  | .stop => s.stopping

/-- A step of the client loop is possible: `recv` returns, and the mutex is free. -/
def Proceeds (wakes : Bool) (s : TcpReceiver) (line : TcpLine) : ClientLoop → Prop
  | .receiving => line.Fed ∨ wakes = true ∧ line.closed = true
  | .notifying => s.stop.holds = false
  | .exited => False
  | _ => True

instance (wakes : Bool) (s : TcpReceiver) (line : TcpLine) :
    (loop : ClientLoop) → Decidable (s.Proceeds wakes line loop)
  | .receiving => inferInstanceAs (Decidable (_ ∨ _))
  | .notifying => inferInstanceAs (Decidable (_ = _))
  | .exited => instDecidableFalse
  | .check | .call | .received _ | .inCallback | .leaving | .finishing => instDecidableTrue

def Enabled (wakes : Bool) (s : TcpReceiver) : Label → Prop
  | .incoming _ _ => s.listening = true ∨ s.acceptLoop = .accepting
  | .message _ _ => True
  | .hangUp _ => True
  | .acceptError => s.acceptLoop = .call ∨ s.acceptLoop = .accepting
  | .connect => s.active = true
  | .setRecvCallback => True
  | .shutdown => True
  | .spurious => s.stop = .waiting
  | .accept => s.acceptLoop ≠ .exited ∧ (s.acceptLoop = .accepting →
      s.backlog ≠ [] ∨ wakes = true ∧ s.listening = false)
  | .client c => ∃ line ∈ s.lines[c]?, ∃ loop ∈ line.loop, s.Proceeds wakes line loop
  | .stop => s.stop ≠ .none ∧ s.stop ≠ .waiting ∧ s.stop ≠ .returned ∧
      (s.stop = .joining → s.acceptLoop = .exited)

instance (wakes : Bool) (s : TcpReceiver) : (l : Label) → Decidable (Enabled wakes s l)
  | .incoming _ _ | .acceptError => inferInstanceAs (Decidable (_ ∨ _))
  | .message _ _ | .hangUp _ | .setRecvCallback | .shutdown => instDecidableTrue
  | .connect | .spurious => inferInstanceAs (Decidable (_ = _))
  | .accept | .stop => inferInstanceAs (Decidable (_ ∧ _))
  | .client c => inferInstanceAs
      (Decidable (∃ line ∈ s.lines[c]?, ∃ loop ∈ line.loop, s.Proceeds wakes line loop))

/-- All orders of the steps of the threads, of the peers and of the callers. -/
def system (wakes : Bool) : TransitionSystem TcpReceiver Label where
  init s := s = {}
  enabled := Enabled wakes
  next := next

instance (wakes : Bool) (s : TcpReceiver) (l : Label) : Decidable ((system wakes).enabled s l) :=
  inferInstanceAs (Decidable (Enabled wakes s l))

/-! ### What holds in every state -/

theorem clientThreadCount_eq (s : TcpReceiver) : s.clientThreadCount =
    ((s.lines.map TcpLine.loop).map fun loop => loop.elim 0 ClientLoop.counted).sum := by
  rw [List.map_map]
  rfl

structure Inv (s : TcpReceiver) : Prop where
  active : s.active = true ↔ s.stop = .none
  listening : s.listening = true ↔ s.stop = .none ∨ s.stop = .closeListen
  lines : ∀ line ∈ s.lines, line.Sound s.stop.hasClosed
  /-- Only the connection that was just accepted has no thread yet. -/
  spawning : ∀ c, s.acceptLoop = .spawning c ↔ (s.lines.map TcpLine.loop)[c]? = some none
  exited : s.acceptLoop = .exited → s.active = false
  joined : s.stop.hasJoined = true → s.acceptLoop = .exited
  /-- No notification is lost. -/
  notified : s.stop = .blocking ∨ s.stop = .waiting →
    0 < s.clientThreadCount ∨ some .notifying ∈ s.lines.map TcpLine.loop
  returned : s.stop = .returned → s.clientThreadCount = 0

section Client

variable {s : TcpReceiver} {c j : Nat} {line : TcpLine} (hline : s.lines[c]? = some line)
include hline

theorem client_eq : s.client c =
    { s with
      lines := s.lines.modify c (·.step s.active s.callback (s.clientThreadCount == 1))
      calls := s.calls ++ (line.hands s.callback).map (Prod.mk c)
      stop := if line.loop = some .notifying ∧ s.stop = .waiting then .locking else s.stop } := by
  simp only [client, hline]

theorem client_self : (s.client c).lines[c]? =
    some (line.step s.active s.callback (s.clientThreadCount == 1)) := by
  rw [client_eq hline, List.getElem?_modify_eq, hline]
  rfl

theorem client_other (hne : c ≠ j) : (s.client c).lines[j]? = s.lines[j]? := by
  rw [client_eq hline]
  exact List.getElem?_modify_ne _ _ hne

/-- The count after a step of a client loop. -/
theorem count_client : (s.client c).clientThreadCount + line.counted = s.clientThreadCount +
    if line.loop = some .finishing then 0 else line.counted := by
  rw [← line.counted_step s.active s.callback (s.clientThreadCount == 1), client_eq hline]
  exact List.sum_map_modify _ _ hline

/-- The call of `shutdown` is notified, or stays where it is. -/
theorem client_stop : (line.loop = some .notifying ∧ s.stop = .waiting ∧
    (s.client c).stop = .locking) ∨
      (¬ (line.loop = some .notifying ∧ s.stop = .waiting) ∧ (s.client c).stop = s.stop) := by
  rw [client_eq hline]
  by_cases hboth : line.loop = some .notifying ∧ s.stop = .waiting
  · exact .inl ⟨hboth.1, hboth.2, if_pos hboth⟩
  · exact .inr ⟨hboth, if_neg hboth⟩

end Client

namespace Inv

variable {s : TcpReceiver}

theorem start : Inv {} where
  active := by decide
  listening := by decide
  lines := by rintro _ ⟨⟩
  spawning c := by
    constructor
    · rintro ⟨⟩
    · rintro ⟨⟩
  exited := by rintro ⟨⟩
  joined := by rintro ⟨⟩
  notified := by rintro (⟨⟨⟩⟩ | ⟨⟨⟩⟩)
  returned := by rintro ⟨⟩

theorem not_emptied (h : Inv s) (hactive : s.active = true) : s.stop.hasClosed = false := by
  rw [h.active.mp hactive]
  rfl

/-- The accept thread has not been joined. -/
theorem not_joined (h : Inv s) (hloop : s.acceptLoop ≠ .exited) : s.stop.hasJoined = false :=
  Bool.eq_false_iff.mpr fun hjoined => hloop (h.joined hjoined)

/-- A step that leaves the call of `shutdown` and the count alone. -/
theorem of_same {t : TcpReceiver} (h : Inv s) (hactive : t.active = s.active)
    (hstop : t.stop = s.stop) (hlistening : t.listening = s.listening)
    (hlines : ∀ line ∈ t.lines, line.Sound s.stop.hasClosed)
    (hspawning : ∀ c, t.acceptLoop = .spawning c ↔ (t.lines.map TcpLine.loop)[c]? = some none)
    (hexited : t.acceptLoop = .exited → s.active = false)
    (hjoined : s.stop.hasJoined = true → t.acceptLoop = .exited ∧
      t.lines.map TcpLine.loop = s.lines.map TcpLine.loop) :
    Inv t where
  active := by rw [hactive, hstop]; exact h.active
  listening := by rw [hlistening, hstop]; exact h.listening
  lines := by rw [hstop]; exact hlines
  spawning := hspawning
  exited := by rw [hactive]; exact hexited
  joined := by rw [hstop]; exact fun hj => (hjoined hj).1
  notified := by
    rw [hstop]
    intro hwaits
    obtain ⟨-, hloops⟩ := hjoined (by obtain hw | hw := hwaits <;> rw [hw] <;> rfl)
    rw [clientThreadCount_eq, hloops, ← clientThreadCount_eq]
    exact h.notified hwaits
  returned := by
    rw [hstop]
    intro hreturned
    rw [clientThreadCount_eq, (hjoined (by rw [hreturned]; rfl)).2, ← clientThreadCount_eq]
    exact h.returned hreturned

/-- A step that starts no client loop. -/
theorem accept_moved (h : Inv s) (hloop : s.acceptLoop ≠ .exited)
    (hbefore : ∀ c, s.acceptLoop ≠ .spawning c) (place : AcceptLoop)
    (hafter : ∀ c, place ≠ .spawning c) (hexited : place = .exited → s.active = false)
    (backlog : List (List Bytes × Bool)) : Inv { s with backlog, acceptLoop := place } := by
  refine h.of_same rfl rfl rfl h.lines (fun c => ?_) hexited fun hj => ?_
  · rw [← h.spawning c]
    exact iff_of_false (hafter c) (hbefore c)
  · rw [h.not_joined hloop] at hj
    cases hj

/-- The loop ends only after the transport has become inactive. -/
theorem accept_unless (h : Inv s) (hloop : s.acceptLoop ≠ .exited)
    (hbefore : ∀ c, s.acceptLoop ≠ .spawning c) {place : AcceptLoop}
    (hafter : ∀ c, place ≠ .spawning c) (hne : place ≠ .exited) :
    Inv { s with acceptLoop := if s.active then place else .exited } := by
  split
  · exact h.accept_moved hloop hbefore _ hafter (fun hexited => absurd hexited hne) _
  · rename_i hactive
    exact h.accept_moved hloop hbefore _ (by rintro _ ⟨⟩)
      (fun _ => Bool.eq_false_iff.mpr hactive) _

theorem accept (h : Inv s) (hloop : s.acceptLoop ≠ .exited) : Inv s.accept := by
  have hbefore : ∀ {place : AcceptLoop}, s.acceptLoop = place → (∀ c, place ≠ .spawning c) →
      ∀ c, s.acceptLoop ≠ .spawning c := by
    rintro _ rfl hne
    exact hne
  cases hplace : s.acceptLoop with
  | check =>
      simp only [TcpReceiver.accept, hplace]
      exact h.accept_unless hloop (hbefore hplace (by rintro _ ⟨⟩)) (by rintro _ ⟨⟩) (by rintro ⟨⟩)
  | call =>
      simp only [TcpReceiver.accept, hplace]
      have hnot := hbefore hplace (by rintro _ ⟨⟩)
      split
      · split
        · exact h.accept_moved hloop hnot _ (by rintro _ ⟨⟩) (by rintro ⟨⟩) _
        · exact h.accept_moved hloop hnot _ (by rintro _ ⟨⟩) (by rintro ⟨⟩) _
      · exact h.accept_unless hloop hnot (by rintro _ ⟨⟩) (by rintro ⟨⟩)
  | accepting =>
      simp only [TcpReceiver.accept, hplace]
      have hnot := hbefore hplace (by rintro _ ⟨⟩)
      split
      · exact h.accept_moved hloop hnot _ (by rintro _ ⟨⟩) (by rintro ⟨⟩) _
      · exact h.accept_unless hloop hnot (by rintro _ ⟨⟩) (by rintro ⟨⟩)
  | holding pending ended =>
      simp only [TcpReceiver.accept, hplace]
      refine h.of_same rfl rfl rfl ?_ (fun c => ?_) (by rintro ⟨⟩) fun hj => ?_
      · intro line hmem
        obtain hmem | hmem := List.mem_append.mp hmem
        · exact h.lines line hmem
        · obtain rfl := List.mem_singleton.mp hmem
          exact ⟨.inl rfl, by rintro _ ⟨⟩, by rintro _ _ ⟨⟩⟩
      · rw [List.map_append, List.map_singleton, List.getElem?_concat_eq_some, ← h.spawning c,
          List.length_map]
        constructor
        · rintro ⟨⟩
          exact .inr ⟨rfl, rfl⟩
        · rintro (hold | ⟨hlast, -⟩)
          · exact absurd hold (hbefore hplace (by rintro _ ⟨⟩) c)
          · exact congrArg AcceptLoop.spawning hlast.symm
      · rw [h.not_joined hloop] at hj
        cases hj
  | spawning c =>
      simp only [TcpReceiver.accept, hplace]
      refine h.of_same rfl rfl rfl ?_ (fun j => ?_) (by rintro ⟨⟩) fun hj => ?_
      · exact List.forall_mem_modify h.lines fun line _ hline =>
          hline.moveTo (by rintro ⟨⟩) (by rintro _ ⟨⟩)
      · refine iff_of_false (by rintro ⟨⟩) fun hnone => ?_
        rw [List.getElem?_map, List.getElem?_modify] at hnone
        split at hnone
        · cases hline : s.lines[j]? with
          | none => simp [hline] at hnone
          | some line => simp [hline, TcpLine.moveTo] at hnone
        · rename_i hne
          have hspawning := (h.spawning j).mpr (by
            rw [List.getElem?_map]
            simpa using hnone)
          rw [hplace] at hspawning
          exact hne (AcceptLoop.spawning.inj hspawning)
      · rw [h.not_joined hloop] at hj
        cases hj
  | sleeping =>
      simp only [TcpReceiver.accept, hplace]
      exact h.accept_moved hloop (hbefore hplace (by rintro _ ⟨⟩)) _ (by rintro _ ⟨⟩)
        (by rintro ⟨⟩) _
  | exited => exact absurd hplace hloop

/-- A change of what a connection has to read. -/
theorem arrive (h : Inv s) {c : Nat} {f : TcpLine → TcpLine}
    (hloop : ∀ line, (f line).loop = line.loop) (htable : ∀ line, (f line).inTable = line.inTable)
    (hclosed : ∀ line, (f line).closed = line.closed) :
    Inv { s with lines := s.lines.modify c f } := by
  refine h.of_same rfl rfl rfl ?_ ?_ h.exited fun hj => ⟨h.joined hj, ?_⟩
  · refine List.forall_mem_modify h.lines fun line _ hline => ?_
    constructor
    · rw [htable, hclosed]; exact hline.owned
    · rw [hloop, hclosed]; exact hline.left
    · rw [hloop, hclosed]; exact hline.cut
  · rw [List.map_modify_eq hloop]
    exact h.spawning
  · exact List.map_modify_eq hloop

section Client

variable {wakes : Bool} {c : Nat} {line : TcpLine} (h : Inv s) (hline : s.lines[c]? = some line)
include h hline

/-- A loop that is not the last leaves others to be counted, and the last one is going to notify. -/
theorem notified_client (hquiet : line.loop ≠ some .notifying)
    (hwaits : s.stop = .blocking ∨ s.stop = .waiting) :
    0 < (s.client c).clientThreadCount ∨
      some .notifying ∈ (s.client c).lines.map TcpLine.loop := by
  have hcount := count_client hline
  by_cases hfinishing : line.loop = some .finishing
  · by_cases hlast : s.clientThreadCount = 1
    · refine .inr (List.mem_map.mpr ⟨_, List.mem_of_getElem? (client_self hline), ?_⟩)
      simp only [TcpLine.step, hfinishing, hlast, beq_self_eq_true, if_true]
      rfl
    · rw [if_pos hfinishing, TcpLine.counted, hfinishing] at hcount
      have hone : (s.client c).clientThreadCount + 1 = s.clientThreadCount := hcount
      obtain hpositive | hnone := Nat.eq_zero_or_pos (s.client c).clientThreadCount
      · omega
      · exact .inl hnone
  · rw [if_neg hfinishing] at hcount
    obtain hpositive | hnotifies := h.notified hwaits
    · exact .inl (by omega)
    · obtain ⟨other, hother, hloop⟩ := List.mem_map.mp hnotifies
      obtain ⟨j, hj⟩ := List.mem_iff_getElem?.mp hother
      have hne : c ≠ j := by
        rintro rfl
        rw [hline] at hj
        exact hquiet (Option.some.inj hj ▸ hloop)
      exact .inr (List.mem_map.mpr
        ⟨other, List.mem_of_getElem? ((client_other hline hne).trans hj), hloop⟩)

theorem client {loop : ClientLoop} (hloop : line.loop = some loop)
    (hproceeds : s.Proceeds wakes line loop) : Inv (s.client c) := by
  have hsound : ∀ other ∈ (s.client c).lines, other.Sound s.stop.hasClosed := by
    rw [client_eq hline]
    exact List.forall_mem_modify h.lines fun other _ hother => hother.step h.not_emptied _ _
  have hspawning : ∀ j, (s.client c).acceptLoop = .spawning j ↔
      ((s.client c).lines.map TcpLine.loop)[j]? = some none := by
    intro j
    have hplace : (s.client c).acceptLoop = s.acceptLoop := by rw [client_eq hline]
    rw [hplace, h.spawning j, List.getElem?_map, List.getElem?_map]
    by_cases hj : c = j
    · subst hj
      rw [hline, client_self hline, Option.map_some, Option.map_some, Option.some_inj,
        Option.some_inj]
      exact (TcpLine.step_eq_none line _ _ _).symm
    · rw [client_other hline hj]
  have hkept : (s.client c).active = s.active ∧ (s.client c).listening = s.listening ∧
      (s.client c).acceptLoop = s.acceptLoop := by
    rw [client_eq hline]
    exact ⟨rfl, rfl, rfl⟩
  obtain ⟨hactive, hlistening, hplace⟩ := hkept
  obtain ⟨-, hwaiting, hstop⟩ | ⟨hfree, hstop⟩ := client_stop hline
  · have hinactive := h.active
    have hclosed := h.listening
    rw [hwaiting] at hinactive hclosed hsound
    exact
      { active := by rw [hactive, hstop]; exact hinactive.trans (by decide)
        listening := by rw [hlistening, hstop]; exact hclosed.trans (by decide)
        lines := by rw [hstop]; exact hsound
        spawning := hspawning
        exited := by rw [hplace, hactive]; exact h.exited
        joined := fun _ => hplace.trans (h.joined (by rw [hwaiting]; rfl))
        notified := by
          rw [hstop]
          rintro (⟨⟨⟩⟩ | ⟨⟨⟩⟩)
        returned := by
          rw [hstop]
          rintro ⟨⟩ }
  · have hquiet : s.stop = .blocking ∨ s.stop = .waiting → line.loop ≠ some .notifying := by
      rintro (hblocking | hwaiting) hnotifying
      · obtain rfl := Option.some.inj (hloop.symm.trans hnotifying)
        rw [Proceeds, hblocking] at hproceeds
        cases hproceeds
      · exact hfree ⟨hnotifying, hwaiting⟩
    exact
      { active := by rw [hactive, hstop]; exact h.active
        listening := by rw [hlistening, hstop]; exact h.listening
        lines := by rw [hstop]; exact hsound
        spawning := hspawning
        exited := by rw [hplace, hactive]; exact h.exited
        joined := by rw [hplace, hstop]; exact h.joined
        notified := by
          rw [hstop]
          exact fun hwaits => h.notified_client hline (hquiet hwaits) hwaits
        returned := by
          rw [hstop]
          intro hreturned
          have hzero := h.returned hreturned
          have hcount := count_client hline
          split at hcount <;> omega }

end Client

theorem connect (h : Inv s) (hactive : s.active = true) : Inv (s.next .connect) := by
  refine h.of_same rfl rfl rfl ?_ (fun c => ?_) h.exited fun hj => ?_
  · intro line hmem
    obtain hmem | hmem := List.mem_append.mp hmem
    · exact h.lines line hmem
    · obtain rfl := List.mem_singleton.mp hmem
      exact ⟨.inl rfl, by rintro _ ⟨⟩ ⟨⟩, by rintro _ _ ⟨⟩ ⟨⟩⟩
  · have happend : ((s.next .connect).lines.map TcpLine.loop)[c]? = some none ↔
        (s.lines.map TcpLine.loop)[c]? = some none := by
      rw [next, List.map_append, List.map_singleton, List.getElem?_concat_eq_some]
      refine or_iff_left ?_
      rintro ⟨-, ⟨⟩⟩
    exact (h.spawning c).trans happend.symm
  · rw [h.active.mp hactive] at hj
    cases hj

theorem shutdown (h : Inv s) : Inv s.shutdown := by
  rw [TcpReceiver.shutdown]
  split
  · rename_i hactive
    have hnone := h.active.mp hactive
    have hlines := h.lines
    have hlistening := h.listening
    rw [hnone] at hlines hlistening
    exact
      { active := iff_of_false (by rintro ⟨⟩) (by rintro ⟨⟩)
        listening := iff_of_true (hlistening.mpr (.inl rfl)) (.inr rfl)
        lines := hlines
        spawning := h.spawning
        exited := fun _ => rfl
        joined := by rintro ⟨⟩
        notified := by rintro (⟨⟨⟩⟩ | ⟨⟨⟩⟩)
        returned := by rintro ⟨⟩ }
  · exact h

/-- A step of the call of `shutdown` after all sockets were closed. -/
theorem stop_moved (h : Inv s) (hbefore : s.stop.hasClosed = true) {place : TcpShutdown}
    (hafter : place.hasClosed = true) (hexited : s.acceptLoop = .exited)
    (hnotified : place = .blocking ∨ place = .waiting →
      0 < s.clientThreadCount ∨ some .notifying ∈ s.lines.map TcpLine.loop)
    (hreturned : place = .returned → s.clientThreadCount = 0) :
    Inv { s with stop := place } where
  active := iff_of_false (fun hactive => TcpShutdown.past hbefore (.inl (h.active.mp hactive)))
    fun hnone => TcpShutdown.past hafter (.inl hnone)
  listening := iff_of_false (fun hopen => TcpShutdown.past hbefore (h.listening.mp hopen))
    (TcpShutdown.past hafter)
  lines := by
    have hlines := h.lines
    rw [hbefore] at hlines
    exact hafter.symm ▸ hlines
  spawning := h.spawning
  exited := h.exited
  joined _ := hexited
  notified := hnotified
  returned := hreturned

/-- The connections of the table are closed, and the table is emptied. -/
theorem closeAll (h : Inv s) (hplace : s.stop = .closeAll) :
    Inv { s with lines := s.lines.map TcpLine.close, stop := .joining } := by
  have hactive := h.active
  have hlistening := h.listening
  rw [hplace] at hactive hlistening
  have hloops : (s.lines.map TcpLine.close).map TcpLine.loop = s.lines.map TcpLine.loop := by
    rw [List.map_map]
    exact List.map_congr_left fun line _ => line.close_loop
  exact
    { active := hactive.trans (iff_of_false (by rintro ⟨⟩) (by rintro ⟨⟩))
      listening := hlistening.trans
        (iff_of_false (by rintro (⟨⟨⟩⟩ | ⟨⟨⟩⟩)) (by rintro (⟨⟨⟩⟩ | ⟨⟨⟩⟩)))
      lines := by
        intro line hmem
        obtain ⟨line', hmem', rfl⟩ := List.mem_map.mp hmem
        exact .of_closed (TcpLine.close_closed (h.lines line' hmem'))
      spawning := fun c => (h.spawning c).trans (by rw [hloops])
      exited := h.exited
      joined := by rintro ⟨⟩
      notified := by rintro (⟨⟨⟩⟩ | ⟨⟨⟩⟩)
      returned := by rintro ⟨⟩ }

theorem stopping (h : Inv s) {wakes : Bool} (henabled : Enabled wakes s .stop) :
    Inv s.stopping := by
  obtain ⟨hnone, hwaiting, hreturned, hjoining⟩ := henabled
  cases hplace : s.stop with
  | closeListen =>
      simp only [TcpReceiver.stopping, hplace]
      have hactive := h.active
      have hlines := h.lines
      rw [hplace] at hactive hlines
      exact
        { active := hactive.trans (iff_of_false (by rintro ⟨⟩) (by rintro ⟨⟩))
          listening := iff_of_false (by rintro ⟨⟩) (by rintro (⟨⟨⟩⟩ | ⟨⟨⟩⟩))
          lines := hlines
          spawning := h.spawning
          exited := h.exited
          joined := by rintro ⟨⟩
          notified := by rintro (⟨⟨⟩⟩ | ⟨⟨⟩⟩)
          returned := by rintro ⟨⟩ }
  | closeAll =>
      simp only [TcpReceiver.stopping, hplace]
      exact h.closeAll hplace
  | joining =>
      simp only [TcpReceiver.stopping, hplace]
      exact h.stop_moved (by rw [hplace]; rfl) rfl (hjoining hplace) (by rintro (⟨⟨⟩⟩ | ⟨⟨⟩⟩))
        (by rintro ⟨⟩)
  | locking =>
      simp only [TcpReceiver.stopping, hplace]
      exact h.stop_moved (by rw [hplace]; rfl) rfl (h.joined (by rw [hplace]; rfl))
        (by rintro (⟨⟨⟩⟩ | ⟨⟨⟩⟩)) (by rintro ⟨⟩)
  | testing =>
      simp only [TcpReceiver.stopping, hplace]
      have hclosed : s.stop.hasClosed = true := by rw [hplace]; rfl
      have hexited := h.joined (by rw [hplace]; rfl)
      split
      · rename_i hzero
        exact h.stop_moved hclosed rfl hexited (by rintro (⟨⟨⟩⟩ | ⟨⟨⟩⟩)) fun _ => hzero
      · rename_i hpositive
        exact h.stop_moved hclosed rfl hexited
          (fun _ => .inl (Nat.pos_of_ne_zero hpositive)) (by rintro ⟨⟩)
  | blocking =>
      simp only [TcpReceiver.stopping, hplace]
      exact h.stop_moved (by rw [hplace]; rfl) rfl (h.joined (by rw [hplace]; rfl))
        (fun _ => h.notified (.inl hplace)) (by rintro ⟨⟩)
  | none => exact absurd hplace hnone
  | waiting => exact absurd hplace hwaiting
  | returned => exact absurd hplace hreturned

theorem next (h : Inv s) {wakes : Bool} {l : Label} (henabled : Enabled wakes s l) :
    Inv (s.next l) := by
  cases l with
  | incoming pending ended =>
      exact h.of_same rfl rfl rfl h.lines h.spawning h.exited fun hj => ⟨h.joined hj, rfl⟩
  | message c msg => exact h.arrive (fun _ => rfl) (fun _ => rfl) (fun _ => rfl)
  | hangUp c => exact h.arrive (fun _ => rfl) (fun _ => rfl) (fun _ => rfl)
  | acceptError =>
      obtain hplace | hplace := henabled
      · exact h.accept_unless (by rw [hplace]; rintro ⟨⟩) (by rw [hplace]; rintro _ ⟨⟩)
          (by rintro _ ⟨⟩) (by rintro ⟨⟩)
      · exact h.accept_unless (by rw [hplace]; rintro ⟨⟩) (by rw [hplace]; rintro _ ⟨⟩)
          (by rintro _ ⟨⟩) (by rintro ⟨⟩)
  | connect => exact h.connect henabled
  | setRecvCallback =>
      exact h.of_same rfl rfl rfl h.lines h.spawning h.exited fun hj => ⟨h.joined hj, rfl⟩
  | shutdown => exact h.shutdown
  | spurious =>
      have hplace : s.stop = .waiting := henabled
      exact h.stop_moved (by rw [hplace]; rfl) rfl (h.joined (by rw [hplace]; rfl))
        (by rintro (⟨⟨⟩⟩ | ⟨⟨⟩⟩)) (by rintro ⟨⟩)
  | accept => exact h.accept henabled.1
  | client c =>
      obtain ⟨line, hline, loop, hloop, hproceeds⟩ := henabled
      exact h.client hline hloop hproceeds
  | stop => exact h.stopping henabled

end Inv

theorem inv_of_reachable {wakes : Bool} {s : TcpReceiver} (h : (system wakes).Reachable s) :
    Inv s := by
  refine h.invariant ?_ fun s l _ hs henabled => hs.next henabled
  rintro _ rfl
  exact .start

end TcpReceiver

end EmbedMq
