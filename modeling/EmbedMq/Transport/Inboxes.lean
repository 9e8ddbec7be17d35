import EmbedMq.Foundation.Table
import EmbedMq.Foundation.Transition
import EmbedMq.Transport.Basic
import EmbedMq.Transport.ConfigText

/-!
# The shared-memory inboxes of a host

Every participant with shared memory creates a segment, its inbox, under a name made of the
process id, and unlinks the name when it shuts down. A sender opens the segment by the name
that a peer advertises and keeps it open. The segments outlive their names, and a name may
denote another segment later on.

A frame gets to its receiver, and an inbox has one consumer, as long as a process has one
participant at a time and no sender uses a segment that the name does not denote any more.
Shared memory is that of POSIX; a process does not end without shutting its participants
down.
-/

namespace EmbedMq

/-- A participant, with the segment of its inbox. -/
structure ShmInstance where
  pid : Nat
  inbox : Nat
  deriving DecidableEq

/-- A frame in a segment, with the participant for which it was written. -/
structure ShmFrame where
  receiver : Nat
  data : Bytes
  deriving DecidableEq

structure ShmHost where
  /-- The named shared memory objects. -/
  names : Table Bytes Nat := ∅
  /-- The messages in the ring of each segment. -/
  segments : Nat → List ShmFrame := fun _ => []
  nextSegment : Nat := 0
  /-- The participants that have not shut down. -/
  live : Table Nat ShmInstance := ∅
  nextInstance : Nat := 0
  /-- `peerRegions_` of each participant. -/
  peerRegions : Nat → Table Bytes Nat := fun _ => ∅
  /-- Which participant was handed which frame. -/
  consumed : List (Nat × ShmFrame) := []

namespace ShmHost

inductive Label where
  | create (pid : Nat)
  | shutdown (p : Nat)
  | send (sender receiver : Nat) (data : Bytes)
  | consume (p : Nat)

/-- `openInbox` with `create`: the segment under the name, or a new one. -/
def create (pid : Nat) (s : ShmHost) : ShmHost :=
  match s.names.lookup (shmName pid) with
  | some segment =>
      { s with
        live := s.live.insert s.nextInstance ⟨pid, segment⟩
        nextInstance := s.nextInstance + 1 }
  | none =>
      { s with
        names := s.names.insert (shmName pid) s.nextSegment
        nextSegment := s.nextSegment + 1
        live := s.live.insert s.nextInstance ⟨pid, s.nextSegment⟩
        nextInstance := s.nextInstance + 1 }

/-- `closeRegion` unlinks the name of the inbox, whatever segment it denotes. -/
def shutdown (p : Nat) (s : ShmHost) : ShmHost :=
  match s.live.lookup p with
  | some x =>
      { s with
        names := s.names.erase (shmName x.pid)
        live := s.live.erase p
        peerRegions := Function.update s.peerRegions p ∅ }
  | none => s

/-- The segment that a participant writes to under a name: the one it has open, or else the one that
the name denotes. The header of an open segment stays valid. -/
def resolvePeer (p : Nat) (target : Bytes) (s : ShmHost) : Option Nat :=
  match (s.peerRegions p).lookup target with
  | some segment => some segment
  | none => s.names.lookup target

/-- Write a frame to a segment, unless it is too long or the ring is full. -/
def write (segment : Nat) (frame : ShmFrame) (s : ShmHost) : ShmHost :=
  if (ShmTransport.write ShmTransport.defaultSlotSize ShmTransport.defaultSlotCount frame.data
      ((s.segments segment).map (·.data))).1 then
    { s with
      segments := Function.update s.segments segment (s.segments segment ++ [frame]) }
  else s

/-- `send` to the endpoint that a live participant advertises. -/
def send (sender receiver : Nat) (data : Bytes) (s : ShmHost) : ShmHost :=
  match s.live.lookup receiver with
  | some y =>
      match s.resolvePeer sender (shmName y.pid) with
      | some segment =>
          let regions := (s.peerRegions sender).insert (shmName y.pid) segment
          ({ s with peerRegions := Function.update s.peerRegions sender regions }).write segment
            ⟨receiver, data⟩
      | none => s
  | none => s

/-- `recvLoop` takes the next message out of the inbox. -/
def consume (p : Nat) (s : ShmHost) : ShmHost :=
  match s.live.lookup p with
  | some x =>
      match s.segments x.inbox with
      | frame :: rest =>
          { s with
            segments := Function.update s.segments x.inbox rest
            consumed := s.consumed ++ [(p, frame)] }
      | [] => s
  | none => s

def next (s : ShmHost) : Label → ShmHost
  | .create pid => s.create pid
  | .shutdown p => s.shutdown p
  | .send sender receiver data => s.send sender receiver data
  | .consume p => s.consume p

def Live (s : ShmHost) (p : Nat) (x : ShmInstance) : Prop := s.live.lookup p = some x

instance (s : ShmHost) (p : Nat) (x : ShmInstance) : Decidable (s.Live p x) :=
  inferInstanceAs (Decidable (_ = _))

/-- Only participants that are live act, and they send to each other. -/
def Enabled (s : ShmHost) : Label → Prop
  | .create _ => True
  | .shutdown p => ∃ x, s.Live p x
  | .send sender receiver _ => (∃ x, s.Live sender x) ∧ ∃ y, s.Live receiver y
  | .consume p => ∃ x, s.Live p x

def system : TransitionSystem ShmHost Label where
  init s := s = {}
  enabled := Enabled
  next := next

/-- The advertised endpoints are distinct, every inbox has one consumer, a frame for a live
participant is in its inbox, and no other participant was handed it. -/
structure OneOwner (s : ShmHost) : Prop where
  endpoints : ∀ p q x y, s.Live p x → s.Live q y → shmName x.pid = shmName y.pid → p = q
  consumers : ∀ p q x y, s.Live p x → s.Live q y → x.inbox = y.inbox → p = q
  written : ∀ segment, ∀ frame ∈ s.segments segment, ∀ x, s.Live frame.receiver x →
    x.inbox = segment
  consumed : ∀ p frame, (p, frame) ∈ s.consumed → frame.receiver = p

/-- A process creates no second participant, and a sender has no other segment open than the one
that the name of the receiver denotes. -/
def Fresh (s : ShmHost) : Label → Prop
  | .create pid => ∀ p x, s.Live p x → x.pid ≠ pid
  | .send sender receiver _ => ∀ y, s.Live receiver y → ∀ segment,
      (s.peerRegions sender).lookup (shmName y.pid) = some segment →
        s.names.lookup (shmName y.pid) = some segment
  | _ => True

/-! ### Names -/

theorem shmName_inj {m n : Nat} (h : shmName m = shmName n) : m = n := by
  rw [shmName, shmName] at h
  have hdigits := congrArg ConfigText.digitsValue (List.append_cancel_left h)
  rwa [ConfigText.digitsValue_decimal, ConfigText.digitsValue_decimal] at hdigits

/-! ### The invariant -/

structure Inv (s : ShmHost) : Prop extends OneOwner s where
  /-- A name denotes the inbox of the participant that advertises it. -/
  named : ∀ p x, s.Live p x → s.names.lookup (shmName x.pid) = some x.inbox
  owned : ∀ name segment, s.names.lookup name = some segment →
    ∃ p x, s.Live p x ∧ shmName x.pid = name
  queued : ∀ p x, s.Live p x → ∀ frame ∈ s.segments x.inbox, frame.receiver = p
  instances : ∀ p x, s.Live p x → p < s.nextInstance
  receivers : ∀ segment, ∀ frame ∈ s.segments segment, frame.receiver < s.nextInstance
  inboxes : ∀ p x, s.Live p x → x.inbox < s.nextSegment
  unused : ∀ segment, s.nextSegment ≤ segment → s.segments segment = []

namespace Inv

theorem initial : Inv {} where
  endpoints := by simp [Live]
  consumers := by simp [Live]
  written := by simp
  consumed := by simp
  named := by simp [Live]
  owned := by simp
  queued := by simp
  instances := by simp [Live]
  receivers := by simp
  inboxes := by simp [Live]
  unused := by simp

variable {s : ShmHost} (h : Inv s)
include h

/-- A name that no live participant advertises denotes nothing. -/
theorem name_unused {pid : Nat} (hfresh : ∀ p x, s.Live p x → x.pid ≠ pid) :
    s.names.lookup (shmName pid) = none := by
  cases hname : s.names.lookup (shmName pid) with
  | none => rfl
  | some segment =>
      obtain ⟨p, x, hlive, hsame⟩ := h.owned _ _ hname
      exact absurd (shmName_inj hsame) (hfresh p x hlive)

omit h in
theorem live_create (hname : s.names.lookup (shmName pid) = none) {p : Nat} {x : ShmInstance} :
    (s.create pid).Live p x ↔
      (p = s.nextInstance ∧ x = ⟨pid, s.nextSegment⟩) ∨ (p ≠ s.nextInstance ∧ s.Live p x) := by
  rw [ShmHost.create, hname, Live, Table.lookup_insert_eq]
  by_cases hp : p = s.nextInstance
  · simp [hp, eq_comm]
  · simp [hp, Live]

omit h in
/-- What tells the live participants apart still does when a new one has another value. -/
theorem injective_create {β : Type} (key : ShmInstance → β)
    (hname : s.names.lookup (shmName pid) = none)
    (hnew : ∀ p x, s.Live p x → key x ≠ key ⟨pid, s.nextSegment⟩)
    (hinjective : ∀ p q x y, s.Live p x → s.Live q y → key x = key y → p = q) (p q : Nat)
    (x y : ShmInstance) (hx : (s.create pid).Live p x) (hy : (s.create pid).Live q y)
    (hsame : key x = key y) : p = q := by
  obtain ⟨rfl, rfl⟩ | ⟨_, hx⟩ := (live_create hname).mp hx
  · obtain ⟨rfl, rfl⟩ | ⟨_, hy⟩ := (live_create hname).mp hy
    · rfl
    · exact absurd hsame.symm (hnew q y hy)
  · obtain ⟨rfl, rfl⟩ | ⟨_, hy⟩ := (live_create hname).mp hy
    · exact absurd hsame (hnew p x hx)
    · exact hinjective p q x y hx hy hsame

/-- A participant of a process without another one gets a name and a segment of its own. -/
theorem create {pid : Nat} (hfresh : ∀ p x, s.Live p x → x.pid ≠ pid) :
    Inv (s.create pid) := by
  have hname := h.name_unused hfresh
  have hcreate : s.create pid = { s with
      names := s.names.insert (shmName pid) s.nextSegment
      nextSegment := s.nextSegment + 1
      live := s.live.insert s.nextInstance ⟨pid, s.nextSegment⟩
      nextInstance := s.nextInstance + 1 } := by
    rw [ShmHost.create, hname]
  have hpid : ∀ p x, s.Live p x → shmName x.pid ≠ shmName pid :=
    fun p x hx hsame => hfresh p x hx (shmName_inj hsame)
  have hsegments : (s.create pid).segments = s.segments := by rw [hcreate]
  have hnames : (s.create pid).names = s.names.insert (shmName pid) s.nextSegment := by
    rw [hcreate]
  constructor
  · constructor
    · exact injective_create (fun x => shmName x.pid) hname hpid h.endpoints
    · exact injective_create ShmInstance.inbox hname
        (fun p x hx => Nat.ne_of_lt (h.inboxes p x hx)) h.consumers
    · intro segment frame hframe x hx
      rw [hsegments] at hframe
      obtain ⟨hp, _⟩ | ⟨_, hx⟩ := (live_create hname).mp hx
      · exact absurd hp (Nat.ne_of_lt (h.receivers segment frame hframe))
      · exact h.written segment frame hframe x hx
    · rw [hcreate]
      exact h.consumed
  · intro p x hx
    rw [hnames, Table.lookup_insert_eq]
    obtain ⟨_, rfl⟩ | ⟨_, hx⟩ := (live_create hname).mp hx
    · rw [if_pos rfl]
    · rw [if_neg (hpid p x hx)]
      exact h.named p x hx
  · intro name segment hlookup
    rw [hnames, Table.lookup_insert_eq] at hlookup
    split at hlookup
    · next hsame =>
        exact ⟨s.nextInstance, _, (live_create hname).mpr (Or.inl ⟨rfl, rfl⟩), hsame.symm⟩
    · obtain ⟨p, x, hx, hsame⟩ := h.owned name segment hlookup
      exact ⟨p, x, (live_create hname).mpr (Or.inr ⟨Nat.ne_of_lt (h.instances p x hx), hx⟩), hsame⟩
  · intro p x hx frame hframe
    rw [hsegments] at hframe
    obtain ⟨_, rfl⟩ | ⟨_, hx⟩ := (live_create hname).mp hx
    · rw [h.unused s.nextSegment (Nat.le_refl _)] at hframe
      exact absurd hframe List.not_mem_nil
    · exact h.queued p x hx frame hframe
  · intro p x hx
    rw [hcreate]
    obtain ⟨rfl, _⟩ | ⟨_, hx⟩ := (live_create hname).mp hx
    · exact Nat.lt_succ_self _
    · exact Nat.lt_succ_of_lt (h.instances p x hx)
  · intro segment frame hframe
    rw [hsegments] at hframe
    rw [hcreate]
    exact Nat.lt_succ_of_lt (h.receivers segment frame hframe)
  · intro p x hx
    rw [hcreate]
    obtain ⟨_, rfl⟩ | ⟨_, hx⟩ := (live_create hname).mp hx
    · exact Nat.lt_succ_self _
    · exact Nat.lt_succ_of_lt (h.inboxes p x hx)
  · intro segment hle
    rw [hcreate] at hle
    rw [hsegments]
    exact h.unused segment (Nat.le_of_succ_le hle)

theorem shutdown {p : Nat} {x : ShmInstance} (hx : s.Live p x) : Inv (s.shutdown p) := by
  have hshutdown : s.shutdown p = { s with
      names := s.names.erase (shmName x.pid)
      live := s.live.erase p
      peerRegions := Function.update s.peerRegions p ∅ } := by
    rw [ShmHost.shutdown, show s.live.lookup p = some x from hx]
  have hlive : ∀ {q y}, (s.shutdown p).Live q y ↔ q ≠ p ∧ s.Live q y := by
    intro q y
    rw [hshutdown, Live, Table.lookup_erase_eq]
    by_cases hq : q = p
    · simp [hq]
    · simp [hq, Live]
  have hnames : (s.shutdown p).names = s.names.erase (shmName x.pid) := by rw [hshutdown]
  rw [hshutdown] at hlive hnames ⊢
  constructor
  · exact ⟨fun q r y z hy hz => h.endpoints q r y z (hlive.mp hy).2 (hlive.mp hz).2,
      fun q r y z hy hz => h.consumers q r y z (hlive.mp hy).2 (hlive.mp hz).2,
      fun segment frame hframe y hy => h.written segment frame hframe y (hlive.mp hy).2,
      h.consumed⟩
  · intro q y hy
    obtain ⟨hne, hy⟩ := hlive.mp hy
    rw [hnames, Table.lookup_erase_eq]
    rw [if_neg fun hsame => hne (h.endpoints q p y x hy hx hsame)]
    exact h.named q y hy
  · intro name segment hlookup
    rw [hnames, Table.lookup_erase_eq] at hlookup
    split at hlookup
    · cases hlookup
    · next hother =>
        obtain ⟨q, y, hy, hsame⟩ := h.owned name segment hlookup
        refine ⟨q, y, hlive.mpr ⟨?_, hy⟩, hsame⟩
        rintro rfl
        obtain rfl := Option.some.inj (hx.symm.trans hy)
        exact hother hsame.symm
  · exact fun q y hy => h.queued q y (hlive.mp hy).2
  · exact fun q y hy => h.instances q y (hlive.mp hy).2
  · exact h.receivers
  · exact fun q y hy => h.inboxes q y (hlive.mp hy).2
  · exact h.unused

/-- The segments may change as long as each frame that comes is in the inbox of its receiver. -/
theorem segments {segments : Nat → List ShmFrame} {consumed : List (Nat × ShmFrame)}
    {peerRegions : Nat → Table Bytes Nat}
    (hframes : ∀ segment, ∀ frame ∈ segments segment, frame ∈ s.segments segment ∨
      ∃ x, s.Live frame.receiver x ∧ x.inbox = segment)
    (hconsumed : ∀ p frame, (p, frame) ∈ consumed → frame.receiver = p) :
    Inv { s with segments, consumed, peerRegions } where
  endpoints := h.endpoints
  consumers := h.consumers
  written := by
    intro segment frame hframe x hx
    obtain hold | ⟨y, hy, hinbox⟩ := hframes segment frame hframe
    · exact h.written segment frame hold x hx
    · obtain rfl := Option.some.inj (hx.symm.trans hy)
      exact hinbox
  consumed := hconsumed
  named := h.named
  owned := h.owned
  queued := by
    intro p x hx frame hframe
    obtain hold | ⟨y, hy, hinbox⟩ := hframes x.inbox frame hframe
    · exact h.queued p x hx frame hold
    · exact h.consumers _ _ y x hy hx hinbox
  instances := h.instances
  receivers := by
    intro segment frame hframe
    obtain hold | ⟨y, hy, _⟩ := hframes segment frame hframe
    · exact h.receivers segment frame hold
    · exact h.instances _ y hy
  inboxes := h.inboxes
  unused := by
    intro segment hle
    refine List.eq_nil_iff_forall_not_mem.mpr fun frame hframe => ?_
    obtain hold | ⟨y, hy, rfl⟩ := hframes segment frame hframe
    · rw [h.unused segment hle] at hold
      exact absurd hold List.not_mem_nil
    · exact absurd (h.inboxes _ y hy) (Nat.not_lt.mpr hle)

theorem consume {p : Nat} {x : ShmInstance} (hx : s.Live p x) : Inv (s.consume p) := by
  rw [ShmHost.consume, show s.live.lookup p = some x from hx]
  cases hqueue : s.segments x.inbox with
  | nil =>
      simp only [hqueue]
      exact h
  | cons frame rest =>
      simp only [hqueue]
      refine h.segments ?_ ?_
      · intro segment other hother
        by_cases hsegment : segment = x.inbox
        · subst hsegment
          rw [Function.update_self] at hother
          rw [hqueue]
          exact Or.inl (List.mem_cons_of_mem _ hother)
        · rw [Function.update_of_ne hsegment] at hother
          exact Or.inl hother
      · intro q other hmem
        obtain hold | hnew := List.mem_append.mp hmem
        · exact h.consumed q other hold
        · obtain ⟨rfl, rfl⟩ := Prod.mk.inj (List.mem_singleton.mp hnew)
          exact h.queued q x hx other (by rw [hqueue]; exact List.mem_cons_self)

theorem send {sender receiver : Nat} {data : Bytes} {y : ShmInstance} (hy : s.Live receiver y)
    (hfresh : ∀ segment, (s.peerRegions sender).lookup (shmName y.pid) = some segment →
      s.names.lookup (shmName y.pid) = some segment) :
    Inv (s.send sender receiver data) := by
  have hresolve : s.resolvePeer sender (shmName y.pid) = some y.inbox := by
    rw [resolvePeer]
    split
    · next segment hcached => rw [← hfresh segment hcached, h.named receiver y hy]
    · exact h.named receiver y hy
  rw [ShmHost.send, show s.live.lookup receiver = some y from hy]
  simp only [hresolve]
  rw [write]
  split
  · refine h.segments ?_ h.consumed
    intro segment frame hframe
    by_cases hsegment : segment = y.inbox
    · subst hsegment
      rw [Function.update_self] at hframe
      obtain hold | hnew := List.mem_append.mp hframe
      · exact Or.inl hold
      · rw [List.mem_singleton.mp hnew]
        exact Or.inr ⟨y, hy, rfl⟩
    · rw [Function.update_of_ne hsegment] at hframe
      exact Or.inl hframe
  · exact h.segments (fun segment frame hframe => Or.inl hframe) h.consumed

end Inv

/-- In every run in which a process has one participant at a time and no sender uses a segment that
the name does not denote any more, the inboxes have one owner. -/
theorem oneOwner {s : ShmHost} (h : (system.restrict Fresh).Reachable s) : OneOwner s := by
  refine Inv.toOneOwner ?_
  induction h with
  | init hinit => exact hinit ▸ Inv.initial
  | @step s l _ henabled ih =>
      obtain ⟨henabled, hfresh⟩ := henabled
      cases l with
      | create pid => exact ih.create hfresh
      | shutdown p =>
          obtain ⟨x, hx⟩ := henabled
          exact ih.shutdown hx
      | send sender receiver data =>
          obtain ⟨_, y, hy⟩ := henabled
          exact ih.send hy (hfresh y hy)
      | consume p =>
          obtain ⟨x, hx⟩ := henabled
          exact ih.consume hx

/-! ### Two participants -/

/-- Two processes; the first participant sends to the second one. -/
theorem oneOwner_apart : OneOwner (system.exec {} [.create 7, .create 8, .send 0 1 [1]]) := by
  refine oneOwner (TransitionSystem.Reachable.exec (.init rfl) ?_)
  have hnone : ∀ p x, ¬ Live {} p x := by simp [Live]
  refine ⟨⟨trivial, fun p x hx => absurd hx (hnone p x)⟩, ⟨trivial, fun p x hx => ?_⟩,
    ⟨⟨⟨⟨7, 0⟩, by decide⟩, ⟨8, 1⟩, by decide⟩, fun y hy segment hcached => ?_⟩, trivial⟩
  · obtain ⟨_, rfl⟩ | ⟨_, hx⟩ := (@Inv.live_create {} 7 rfl _ _).mp hx
    · decide
    · exact absurd hx (hnone p x)
  · cases hcached

/-- Two participants of one process. -/
theorem not_oneOwner : ¬ ∀ s, system.Reachable s → OneOwner s := by
  intro hclaim
  have hreach : system.Reachable (system.exec {} [.create 7, .create 7]) :=
    TransitionSystem.Reachable.exec (.init rfl) ⟨trivial, trivial, trivial⟩
  have hsame := (hclaim _ hreach).endpoints 0 1 ⟨7, 0⟩ ⟨7, 0⟩ (by decide) (by decide) rfl
  exact absurd hsame (by decide)

end ShmHost

end EmbedMq
