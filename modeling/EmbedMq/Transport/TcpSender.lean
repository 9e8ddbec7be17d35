import EmbedMq.Foundation.Transition
import EmbedMq.Transport.TcpStream
import Mathlib.Logic.Function.Basic

/-!
# The sender's end of a TCP connection

The calls of `send` and `sendv` for one endpoint. `getOrConnect` keeps a connection in its cache
until the client loop of the connection ends. A call that fails in the middle of its frame
leaves the connection in the cache, and the next call writes on.
-/

namespace EmbedMq

namespace TcpTransport

/-- A frame that was written to a connection, in full or in part. -/
structure Attempt where
  message : Outgoing
  ok : Bool
  accepted : Bytes

/-- What the transport keeps for one endpoint, and what it has written to each connection. -/
structure Sender where
  active : Bool := true
  /-- The entry of `connections_`. -/
  current : Option Nat := none
  /-- The number of connections so far. -/
  made : Nat := 0
  attempts : Nat → List Attempt := fun _ => []

namespace Sender

/-- Write a frame to a connection. -/
def write (s : Sender) (conn : Nat) (m : Outgoing) (outcomes : List Nat) : Bool × Sender :=
  let sent := writeFrame outcomes m
  let attempts := s.attempts conn ++ [⟨m, sent.ok, sent.accepted⟩]
  (sent.ok, { s with attempts := Function.update s.attempts conn attempts })

/-- The connection in the cache, or a new one. -/
def getOrConnect (s : Sender) (connects : Bool) : Option Nat × Sender :=
  match s.current with
  | some conn => (some conn, s)
  | none =>
      if connects then (some s.made, { s with current := some s.made, made := s.made + 1 })
      else (none, s)

/-- `send` and `sendv`, with what the system calls do. -/
def call (s : Sender) (m : Outgoing) (connects : Bool) (outcomes : List Nat) : Bool × Sender :=
  if s.active = false then (false, s)
  else
    let (conn, s) := s.getOrConnect connects
    match conn with
    | some conn => s.write conn m outcomes
    | none => (false, s)

inductive Label where
  | call (m : Outgoing) (connects : Bool) (outcomes : List Nat)
  /-- The client loop of the connection in the cache ends and removes it. -/
  | ended
  /-- A connection from the endpoint is accepted and takes the place in the cache. -/
  | accepted
  | shutdown

def next (s : Sender) : Label → Sender
  | .call m connects outcomes => (s.call m connects outcomes).2
  | .ended => { s with current := none }
  | .accepted => { s with current := some s.made, made := s.made + 1 }
  | .shutdown => { s with active := false, current := none }

/-- Any calls, and any changes of the cache between them. -/
def system : TransitionSystem Sender Label where
  init s := s = {}
  enabled _ _ := True
  next := next

end Sender

/-- The frame was begun and not finished. -/
def Attempt.Torn (a : Attempt) : Prop := a.ok = false ∧ a.accepted ≠ []

instance (a : Attempt) : Decidable a.Torn := inferInstanceAs (Decidable (_ ∧ _))

namespace Sender

/-- Nothing is written to a connection after a frame that was not finished. -/
def Clean (s : Sender) : Prop :=
  ∀ conn, (s.attempts conn).Pairwise fun earlier later => earlier.Torn → later.accepted = []

/-- The bytes that the peer can receive on a connection. -/
def stream (s : Sender) (conn : Nat) : Bytes := ((s.attempts conn).map (·.accepted)).flatten

/-- The peer's client loop delivers the messages for which the call returned true, if they are of
a size that is received. -/
def Received (s : Sender) : Prop :=
  ∀ conn, (∀ a ∈ s.attempts conn, Acceptable a.message.bytes.length) → ∀ c,
    clientLoop c { left := s.stream conn } =
      ((s.attempts conn).filter (·.ok)).map (·.message.bytes)

/-- When a call is made, the connection in the cache does not end in a frame that an earlier call
has begun and not finished. -/
def Whole (s : Sender) : Label → Prop
  | .call _ _ _ => ∀ conn, s.current = some conn → ∀ a ∈ s.attempts conn, ¬a.Torn
  | _ => True

/-! ### Streams of whole frames -/

/-- What a call wrote was its frame, or a part of it. -/
def Attempt.Sound (a : Attempt) : Prop :=
  Sent.Writes ⟨a.ok, a.accepted, []⟩ (TcpTransport.send a.message.bytes)

/-- The stream of attempts of which only the last one may be torn. -/
theorem unread_attempts {attempts : List Attempt} (hsound : ∀ a ∈ attempts, Attempt.Sound a)
    (hwhole : attempts.Pairwise fun earlier _ => ¬earlier.Torn)
    (hsize : ∀ a ∈ attempts, Acceptable a.message.bytes.length) :
    unread (attempts.map (·.accepted)).flatten =
      (attempts.filter (·.ok)).map (·.message.bytes) := by
  induction attempts with
  | nil => rfl
  | cons a rest ih =>
      obtain ⟨ha, hrest⟩ := List.forall_mem_cons.mp hsound
      obtain ⟨ha', hdrest⟩ := List.forall_mem_cons.mp hsize
      obtain ⟨hfirst, htail⟩ := List.pairwise_cons.mp hwhole
      have hunread := ih hrest htail hdrest
      obtain ⟨left, hframe, hok⟩ := ha
      dsimp only at hframe hok
      rw [List.map_cons, List.flatten_cons]
      cases hresult : a.ok with
      | true =>
          have hall : a.accepted = TcpTransport.send a.message.bytes := by
            rw [hframe, hok.mp hresult, List.append_nil]
          rw [hall, unread_send ha', hunread, List.filter_cons_of_pos (by simp [hresult])]
          rfl
      | false =>
          have hleft : left ≠ [] := fun hnil => by
            rw [hok.mpr hnil] at hresult
            cases hresult
          rw [List.filter_cons_of_neg (by simp [hresult])]
          by_cases hnone : a.accepted = []
          · rw [hnone, List.nil_append]
            exact hunread
          · -- A torn frame is the last one.
            have hlast : rest = [] := List.eq_nil_iff_forall_not_mem.mpr fun b hb =>
              hfirst b hb ⟨hresult, hnone⟩
            rw [hlast, List.map_nil, List.flatten_nil, List.append_nil]
            exact unread_part ha' hframe hleft

/-! ### Runs -/

section Write

variable (s : Sender) (conn : Nat) (m : Outgoing) (outcomes : List Nat)

@[simp] theorem write_attempts : (s.write conn m outcomes).2.attempts conn =
    s.attempts conn ++
      [⟨m, (writeFrame outcomes m).ok, (writeFrame outcomes m).accepted⟩] :=
  Function.update_self ..

theorem write_attempts_of_ne {conn conn' : Nat} (h : conn' ≠ conn) :
    (s.write conn m outcomes).2.attempts conn' = s.attempts conn' :=
  Function.update_of_ne h ..

end Write

/-- Only the last frame of a connection may be torn. -/
structure Inv (s : Sender) : Prop where
  sound : ∀ conn, ∀ a ∈ s.attempts conn, Attempt.Sound a
  whole : ∀ conn, (s.attempts conn).Pairwise fun earlier _ => ¬earlier.Torn
  current : ∀ conn, s.current = some conn → conn < s.made
  fresh : ∀ conn, s.made ≤ conn → s.attempts conn = []

namespace Inv

variable {s : Sender} (h : Inv s)
include h

theorem write {conn : Nat} (hconn : conn < s.made) (hwhole : ∀ a ∈ s.attempts conn, ¬a.Torn)
    (m : Outgoing) (outcomes : List Nat) : Inv (s.write conn m outcomes).2 := by
  refine ⟨fun conn' a ha => ?_, fun conn' => ?_, h.current, fun conn' hle => ?_⟩
  · by_cases heq : conn' = conn
    · rw [heq, write_attempts, List.mem_append, List.mem_singleton] at ha
      obtain ha | rfl := ha
      · exact h.sound conn a ha
      · exact writeFrame_writes outcomes m
    · rw [write_attempts_of_ne s m outcomes heq] at ha
      exact h.sound conn' a ha
  · by_cases heq : conn' = conn
    · rw [heq, write_attempts, List.pairwise_append]
      exact ⟨h.whole conn, List.pairwise_singleton _ _, fun a ha _ _ => hwhole a ha⟩
    · rw [write_attempts_of_ne s m outcomes heq]
      exact h.whole conn'
  · have hne : conn' ≠ conn := Nat.ne_of_gt (Nat.lt_of_lt_of_le hconn hle)
    rw [write_attempts_of_ne s m outcomes hne]
    exact h.fresh conn' hle

/-- A new connection in the cache. -/
theorem connect : Inv { s with current := some s.made, made := s.made + 1 } := by
  refine ⟨h.sound, h.whole, fun conn hconn => ?_, fun conn hle => ?_⟩
  · rw [← Option.some.inj hconn]
    exact Nat.lt_succ_self _
  · exact h.fresh conn (Nat.le_of_succ_le hle)

theorem call {m : Outgoing} {connects : Bool} {outcomes : List Nat}
    (hwhole : s.Whole (.call m connects outcomes)) : Inv (s.call m connects outcomes).2 := by
  rw [Sender.call]
  split
  · exact h
  · rw [getOrConnect]
    cases hcurrent : s.current with
    | some conn => exact h.write (h.current conn hcurrent) (hwhole conn hcurrent) m outcomes
    | none =>
        cases connects with
        | true =>
            refine h.connect.write (Nat.lt_succ_self s.made) (fun a ha => ?_) m outcomes
            change a ∈ s.attempts s.made at ha
            rw [h.fresh s.made (Nat.le_refl _)] at ha
            cases ha
        | false => exact h

theorem next {l : Label} (hwhole : s.Whole l) : Inv (s.next l) := by
  cases l with
  | call m connects outcomes => exact h.call hwhole
  | ended => exact ⟨h.sound, h.whole, fun _ hconn => (by cases hconn), h.fresh⟩
  | accepted => exact h.connect
  | shutdown => exact ⟨h.sound, h.whole, fun _ hconn => (by cases hconn), h.fresh⟩

theorem clean : s.Clean :=
  fun conn => (h.whole conn).imp fun hwhole htorn => absurd htorn hwhole

theorem received : s.Received := by
  intro conn hsize c
  rw [clientLoop_eq]
  exact unread_attempts (h.sound conn) (h.whole conn) hsize

end Inv

theorem inv_of_reachable {s : Sender} (h : (system.restrict Whole).Reachable s) : Inv s := by
  refine h.invariant (fun s hinit => ?_) fun s l _ hs henabled => hs.next henabled.2
  obtain rfl : s = {} := hinit
  exact ⟨fun _ _ ha => (by cases ha), fun _ => .nil, fun _ hconn => (by cases hconn),
    fun _ _ => rfl⟩

/-- If no call finds a torn frame at the end of its connection, no frame is written after one, and
every frame for which a call returned true is received. -/
theorem clean_of_whole {s : Sender} (h : (system.restrict Whole).Reachable s) :
    s.Clean ∧ s.Received :=
  ⟨(inv_of_reachable h).clean, (inv_of_reachable h).received⟩

/-- Two calls on one connection; the first is cut short after two bytes. -/
def tornRun : List Label := [.call (.buffer [7]) true [2], .call (.buffer [8]) false [4, 1]]

/-- The second call returns true, and its frame follows the two bytes. -/
theorem clean_torn : ¬∀ s, system.Reachable s → s.Clean := by
  intro hall
  have hreach : system.Reachable (system.exec {} tornRun) :=
    (TransitionSystem.Reachable.init rfl).exec ⟨trivial, trivial, trivial⟩
  have hclean := hall _ hreach 0
  have hattempts : (system.exec {} tornRun).attempts 0 =
      [⟨.buffer [7], false, [0, 0]⟩, ⟨.buffer [8], true, [0, 0, 0, 1, 8]⟩] := rfl
  rw [hattempts] at hclean
  have hlater := (List.pairwise_cons.mp hclean).1 _ List.mem_cons_self (by decide)
  cases hlater

/-- One call, and another one on a new connection after the first has failed. -/
theorem clean_of_whole_two :
    (system.exec {} [.call (.buffer [7]) true [2], .ended,
      .call (.buffer [8]) true [4, 1]]).Clean ∧
    (system.exec {} [.call (.buffer [7]) true [2], .ended,
      .call (.buffer [8]) true [4, 1]]).Received := by
  have hfirst : Whole {} (.call (.buffer [7]) true [2]) := fun _ hconn => by cases hconn
  have hsecond : ∀ s : Sender, s.current = none → Whole s (.call (.buffer [8]) true [4, 1]) :=
    fun s hs _ hconn => by rw [hs] at hconn; cases hconn
  exact clean_of_whole ((TransitionSystem.Reachable.init rfl).exec
    ⟨⟨trivial, hfirst⟩, ⟨trivial, trivial⟩, ⟨trivial, hsecond _ rfl⟩, trivial⟩)

end Sender

end TcpTransport

end EmbedMq
