import EmbedMq.Foundation.Transition
import EmbedMq.Transport.ShmSender

/-!
# Sending to an inbox that is made anew

The operating system maps names to shared memory objects. Unlinking a name leaves the object to
those who have mapped it, and the next inbox under the name is another object. A sender keeps its
mappings, and `resolvePeer` looks only at header words that an owner who closes does not touch. So
the message gets into the object that the name denotes as long as the kept mapping is of that
object.
-/

namespace EmbedMq

open ShmRing (Geometry Slot)

namespace ShmTransport

/-- The segment of an inbox that was just created. -/
def inboxRegion (g : Geometry) : Region where
  header := { slotSize := g.slotSize, slotCount := g.slotCount }
  totalSize := headerSize + g.slotCount.toNat * g.slotSize.toNat

/-- An inbox is created in a segment that is there: only a header that is no inbox's is replaced. -/
def Region.recreate (g : Geometry) (r : Region) : Region :=
  if r.header.magic ≠ shmMagic then inboxRegion g
  else { r with totalSize := headerSize + g.slotCount.toNat * g.slotSize.toNat }

end ShmTransport

open ShmTransport

/-- A call of `send` or `sendv` that has returned. -/
structure ShmCall where
  ok : Bool
  message : Bytes
  /-- The segment that the name denoted when the call was made. -/
  denoted : Option Nat
  /-- The segment that `resolvePeer` gave. -/
  resolved : Option Nat
  /-- The segments when the call returned. -/
  regions : Nat → Region

/-- The message is in the segment that the name denotes. -/
def ShmCall.Delivered (call : ShmCall) : Prop :=
  ∃ segment, call.denoted = some segment ∧ call.resolved = some segment ∧
    ∃ slot, ((call.regions segment).slots slot).state = .ready ∧
      ((call.regions segment).slots slot).Holds call.message

/-- A sender, the shared memory of its machine, and what was sent so far. -/
structure ShmHistory where
  sender : ShmSender
  /-- The number of segments that were created. -/
  created : Nat := 0
  calls : List ShmCall := []

namespace ShmHistory

inductive Label where
  | create (name : Bytes) (g : Geometry)
  | close (name : Bytes)
  /-- A process that has mapped a segment changes it. -/
  | change (segment : Nat) (f : Region → Region)
  | send (others : Others) (endpoint : Endpoint) (data : Bytes)
  | sendv (others : Others) (endpoint : Endpoint) (slices : List Bytes)

/-- A peer opens its inbox with `create`. -/
def create (s : ShmHistory) (name : Bytes) (g : Geometry) : ShmHistory :=
  match s.sender.names.lookup name with
  | some segment =>
      let region := (s.sender.regions segment).recreate g
      { s with sender := { s.sender with
          regions := Function.update s.sender.regions segment region } }
  | none =>
      { s with
        created := s.created + 1
        sender := { s.sender with
          names := s.sender.names.insert name s.created
          regions := Function.update s.sender.regions s.created (inboxRegion g) } }

/-- A peer closes its inbox; `shm_unlink` removes the name. -/
def close (s : ShmHistory) (name : Bytes) : ShmHistory :=
  { s with sender := { s.sender with names := s.sender.names.erase name } }

def change (s : ShmHistory) (segment : Nat) (f : Region → Region) : ShmHistory :=
  let region := f (s.sender.regions segment)
  { s with sender := { s.sender with
      regions := Function.update s.sender.regions segment region } }

/-- A call with its result, and the sender that it leaves behind. -/
def returned (s : ShmHistory) (endpoint : Endpoint) (message : Bytes) (result : Bool × ShmSender) :
    ShmHistory :=
  let call : ShmCall :=
    { ok := result.1
      message
      denoted := s.sender.names.lookup endpoint.address
      resolved := (s.sender.resolvePeer endpoint.address).1
      regions := result.2.regions }
  { s with sender := result.2, calls := s.calls ++ [call] }

def next (s : ShmHistory) : Label → ShmHistory
  | .create name g => s.create name g
  | .close name => s.close name
  | .change segment f => s.change segment f
  | .send others endpoint data =>
      s.returned endpoint data (s.sender.send others endpoint data)
  | .sendv others endpoint slices =>
      s.returned endpoint slices.flatten (s.sender.sendv others endpoint slices)

def system : TransitionSystem ShmHistory Label where
  init s := s.sender.names = ∅ ∧ s.sender.peerRegions = ∅ ∧ s.created = 0 ∧ s.calls = []
  enabled _ _ := True
  next := next

/-- Every call that returned true has delivered its message. -/
def Delivers (s : ShmHistory) : Prop := ∀ call ∈ s.calls, call.ok = true → call.Delivered

/-- A mapping that is kept for the name and looks like an inbox is of what the name denotes. -/
def Current (s : ShmHistory) (target : Bytes) : Prop :=
  ∀ segment, s.sender.peerRegions.lookup target = some segment →
    (s.sender.regions segment).Valid → s.sender.names.lookup target = some segment

/-- Every call finds a current mapping, or none. -/
def CallsCurrent (s : ShmHistory) : Label → Prop
  | .send _ endpoint _ => s.Current endpoint.address
  | .sendv _ endpoint _ => s.Current endpoint.address
  | _ => True

end ShmHistory

/-! ### A call that returns true -/

namespace ShmTransport

/-- The message of a successful write is in a slot that is ready. -/
theorem writeToRegion_ok {others : Others} {dropped : UInt64} {r : Region} {data : Bytes}
    (hok : (writeToRegion others dropped r data).ok = true) :
    ∃ slot, ((writeToRegion others dropped r data).region.slots slot).state = .ready ∧
      ((writeToRegion others dropped r data).region.slots slot).Holds data := by
  rw [writeToRegion] at hok ⊢
  by_cases hsize : r.header.slotSize.toNat < data.length + slotHeader
  · rw [if_pos hsize] at hok
    cases hok
  · rw [if_neg hsize] at hok ⊢
    have hlength : data.length < 2 ^ 32 := by
      have hlt := r.header.slotSize.toNat_lt
      omega
    cases hreserved : reserve r.header.slotCount others.rounds r with
    | mk found r' =>
        rw [hreserved] at hok
        cases found with
        | none => cases hok
        | some idx =>
            dsimp only at hok ⊢
            split at hok
            · cases hok
            · rename_i hempty
              rw [if_neg hempty]
              have hholds := Slot.holds_slotWrites
                ((awaitEmpty others.spins (idx % r.header.slotCount).toNat 100000 r').2.slots
                  (idx % r.header.slotCount).toNat) (m := .buffer data) hlength
              refine ⟨(idx % r.header.slotCount).toNat, ?_, ?_⟩
              · simp only [Region.setSlot, Region.wakeConsumer, Function.update_self]
              · simp only [Region.setSlot, Region.wakeConsumer, Function.update_self]
                exact hholds

end ShmTransport

namespace ShmSender

/-- `resolvePeer` gives a mapping that was kept, or the segment under the name. -/
theorem resolvePeer_eq_some {s : ShmSender} {target : Bytes} {segment : Nat}
    (h : (s.resolvePeer target).1 = some segment) :
    (s.peerRegions.lookup target = some segment ∧ (s.regions segment).Valid) ∨
      s.names.lookup target = some segment := by
  have hopen : ∀ t : ShmSender, t.names = s.names → (t.openPeer target).1 = some segment →
      s.names.lookup target = some segment := by
    intro t hnames hsome
    rw [openPeer, openInbox, hnames] at hsome
    cases hlookup : s.names.lookup target with
    | none =>
        rw [hlookup] at hsome
        cases hsome
    | some found =>
        rw [hlookup] at hsome
        dsimp only at hsome
        split at hsome
        · rename_i heq
          split at heq
          · cases hsome
            exact heq
          · cases heq
        · cases hsome
  rw [resolvePeer] at h
  cases hkept : s.peerRegions.lookup target with
  | none =>
      rw [hkept] at h
      exact .inr (hopen s rfl h)
  | some found =>
      rw [hkept] at h
      dsimp only at h
      split at h
      · rename_i hvalid
        cases h
        exact .inl ⟨rfl, hvalid⟩
      · exact .inr (hopen { s with peerRegions := s.peerRegions.erase target } rfl h)

/-- A kept mapping that looks like an inbox is what `resolvePeer` gives. -/
theorem resolvePeer_kept {s : ShmSender} {target : Bytes} {segment : Nat}
    (hkept : s.peerRegions.lookup target = some segment) (hvalid : (s.regions segment).Valid) :
    (s.resolvePeer target).1 = some segment := by
  simp only [resolvePeer, hkept, if_pos hvalid]

/-- A call that returns true has resolved its target and written the message there. -/
theorem send_ok {s : ShmSender} {others : Others} {endpoint : Endpoint} {data : Bytes}
    (hok : (s.send others endpoint data).1 = true) :
    ∃ segment, (s.resolvePeer endpoint.address).1 = some segment ∧
      ∃ slot, (((s.send others endpoint data).2.regions segment).slots slot).state = .ready ∧
        (((s.send others endpoint data).2.regions segment).slots slot).Holds data := by
  rw [send] at hok ⊢
  split at hok
  · cases hok
  · split at hok
    · cases hok
    · rename_i hactive haddress
      rw [if_neg hactive, if_neg haddress]
      cases hresolved : s.resolvePeer endpoint.address with
      | mk found t =>
          rw [hresolved] at hok
          cases found with
          | none => cases hok
          | some segment =>
              obtain ⟨slot, hready, hholds⟩ := writeToRegion_ok hok
              refine ⟨segment, rfl, slot, ?_, ?_⟩
              · simp only [finish, Function.update_self]
                exact hready
              · simp only [finish, Function.update_self]
                exact hholds

end ShmSender

namespace ShmHistory

/-- A call that returns true has delivered its message exactly if it found a current mapping. -/
theorem delivered_iff_current {s : ShmHistory} {others : Others} {endpoint : Endpoint}
    {data : Bytes} {call : ShmCall}
    (hcall : (s.returned endpoint data (s.sender.send others endpoint data)).calls =
      s.calls ++ [call]) (hok : call.ok = true) :
    call.Delivered ↔ s.Current endpoint.address := by
  obtain rfl := List.singleton_inj.mp (List.append_cancel_left hcall)
  constructor
  · rintro ⟨segment, hdenoted, hresolved, -⟩ kept hkept hvalid
    have hsame := (ShmSender.resolvePeer_kept hkept hvalid).symm.trans hresolved
    exact hdenoted.trans hsame.symm
  · intro hcurrent
    obtain ⟨segment, hresolved, hslot⟩ := ShmSender.send_ok hok
    obtain ⟨hkept, hvalid⟩ | hnamed := ShmSender.resolvePeer_eq_some hresolved
    · exact ⟨segment, hcurrent segment hkept hvalid, hresolved, hslot⟩
    · exact ⟨segment, hnamed, hresolved, hslot⟩

/-- If every call finds a current mapping or none, every call that returns true has written its
message into the segment that the name denoted. -/
theorem delivered_of_callsCurrent {s : ShmHistory}
    (h : (system.restrict CallsCurrent).Reachable s) : s.Delivers := by
  induction h with
  | init hinit =>
      intro call hmem
      rw [hinit.2.2.2] at hmem
      cases hmem
  | @step s l _ henabled ih =>
      obtain ⟨-, hcond⟩ := henabled
      cases l with
      | create name g =>
          change (s.create name g).Delivers
          rw [create]
          split <;> exact ih
      | close name => exact ih
      | change segment f => exact ih
      | send others endpoint data =>
          intro call hmem
          obtain hold | hnew := List.mem_append.mp hmem
          · exact ih call hold
          · obtain rfl := List.mem_singleton.mp hnew
            exact fun hok => (delivered_iff_current rfl hok).mpr hcond
      | sendv others endpoint slices =>
          intro call hmem
          obtain hold | hnew := List.mem_append.mp hmem
          · exact ih call hold
          · obtain rfl := List.mem_singleton.mp hnew
            have hcall : (s.returned endpoint slices.flatten
                (s.sender.send others endpoint slices.flatten)).calls =
                  (s.returned endpoint slices.flatten
                    (s.sender.sendv others endpoint slices)).calls := by
              rw [ShmSender.sendv_flatten]
            exact fun hok => (delivered_iff_current hcall hok).mpr hcond

/-- A machine without shared memory. -/
def empty : ShmHistory where
  sender := { regions := fun _ => { header := { slotSize := 0, slotCount := 0 }, totalSize := 0 } }

theorem reachable_empty : (system.restrict CallsCurrent).Reachable empty :=
  .init ⟨rfl, rfl, rfl, rfl⟩

/-- A peer that stays. -/
def staying : List Label :=
  [.create [112] ShmRing.smallest, .send {} ⟨[112], 0, []⟩ [1], .sendv {} ⟨[112], 0, []⟩ [[2], [3]]]

/-- Both calls find the inbox that the peer has. -/
theorem delivered_staying : (system.exec empty staying).Delivers := by
  have hadmits : (system.restrict CallsCurrent).Admits empty staying := by
    refine ⟨⟨trivial, trivial⟩, ⟨trivial, fun segment hkept => ?_⟩,
      ⟨trivial, fun segment hkept _ => ?_⟩, trivial⟩
    · cases hkept
    · exact hkept
  exact delivered_of_callsCurrent (reachable_empty.exec hadmits)

/-- A peer that closes its inbox and makes it anew under the same name. -/
def renewed : List Label :=
  [.create [112] ShmRing.smallest, .send {} ⟨[112], 0, []⟩ [1], .close [112],
    .create [112] ShmRing.smallest, .send {} ⟨[112], 0, []⟩ [2]]

/-- The second message goes to the segment of the first inbox. -/
theorem delivered_renewed : ¬∀ s : ShmHistory, system.Reachable s → s.Delivers := by
  intro hclaim
  have hreach : system.Reachable (system.exec empty renewed) :=
    reachable_empty.of_restrict.exec ⟨trivial, trivial, trivial, trivial, trivial, trivial⟩
  have hsecond : ((system.exec empty renewed).calls[1]?).map
      (fun call => (call.ok, call.denoted, call.resolved)) = some (true, some 1, some 0) := by
    decide
  obtain ⟨call, hcall, hfacts⟩ := Option.map_eq_some_iff.mp hsecond
  obtain ⟨hok, hdenoted, hresolved⟩ : call.ok = true ∧ call.denoted = some 1 ∧
      call.resolved = some 0 := by simpa using hfacts
  obtain ⟨segment, hdenoted', hresolved', -⟩ :=
    hclaim _ hreach call (List.mem_of_getElem? hcall) hok
  rw [hdenoted, ← hresolved', hresolved] at hdenoted'
  exact absurd hdenoted' (by decide)

end ShmHistory

end EmbedMq
