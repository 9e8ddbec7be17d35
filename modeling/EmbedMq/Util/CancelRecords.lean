import EmbedMq.Util.Timers
import Mathlib.Algebra.Order.BigOperators.Group.Finset
import Mathlib.Data.Fintype.BigOperators

/-!
# Notes of cancelled timers

`cancel` notes an id whatever has become of its timer, and only the extraction step crosses a note
out. As long as timers are cancelled while they stand in a slot, every note is about such a timer.
A note about a timer that was already taken out is never crossed out.
-/

namespace EmbedMq

variable {κ : Type*}

namespace Timers

variable {s : Timers κ}

/-- A timer with this id stands in a slot. -/
def Stored (s : Timers κ) (id : Nat) : Prop := ∃ i, ∃ t ∈ s.wheel.slots i, t.id = id

/-- How many timers stand in slots. -/
def size (s : Timers κ) : Nat := ∑ i, (s.wheel.slots i).length

/-- Between two ticks every note is about a timer in a slot, and there are no more notes than such
timers. -/
structure RecordsBounded (s : Timers κ) : Prop where
  stored : s.Idle → ∀ id ∈ s.wheel.cancelSet, s.Stored id
  card_le : s.Idle → s.wheel.cancelSet.card ≤ s.size

/-- A timer is cancelled while it stands in a slot. -/
def CancelsStored (s : Timers κ) : Label κ → Prop
  | .cancel id => s.Stored id
  | _ => True

theorem Stored.add {id other : Nat} (h : s.Stored id) (delayMs : UInt32) (periodic : Bool)
    (cb : κ) : (s.add other delayMs periodic cb).Stored id := by
  obtain ⟨i, t, hmem, hid⟩ := h
  exact ⟨i, t, TimerWheel.mem_slots_addTimerLocked.mpr (.inl hmem), hid⟩

theorem Stored.settle {id : Nat} (h : s.Stored id) (t : Timer κ) : (s.settle t).Stored id := by
  obtain ⟨i, u, hmem, hid⟩ := h
  refine ⟨i, u, ?_, hid⟩
  rw [Timers.settle, TimerWheel.reinsert]
  split
  · exact TimerWheel.mem_slots_addTimerLocked.mpr (.inl hmem)
  · exact hmem

theorem cancelSet_settle (s : Timers κ) (t : Timer κ) :
    (s.settle t).wheel.cancelSet = s.wheel.cancelSet := by
  rw [Timers.settle, TimerWheel.reinsert]
  split <;> rfl

/-- A note that outlives the extraction step is about a timer that does too. -/
theorem stored_tick (h : ∀ id ∈ s.wheel.cancelSet, s.Stored id) :
    ∀ id ∈ s.tick.wheel.cancelSet, s.tick.Stored id := by
  intro id hid
  change id ∈ s.wheel.advance.cancelSet at hid
  rw [TimerWheel.advance, TimerWheel.extraction, TimerWheel.mem_extract_cancelSet] at hid
  obtain ⟨hnoted, hkept⟩ := hid
  obtain ⟨i, t, hmem, heq⟩ := h id hnoted
  refine ⟨i, t, TimerWheel.mem_slots_advance.mpr ⟨hmem, ?_⟩, heq⟩
  rintro rfl
  by_contra hdue
  exact hkept t hmem (Nat.not_lt.mp hdue) heq

theorem stored_of_noted (h : ((system κ).restrict CancelsStored).Reachable s) :
    ∀ id ∈ s.wheel.cancelSet, s.Stored id := by
  induction h with
  | init hinit =>
      obtain rfl := hinit
      exact fun id hid => absurd hid (Finset.notMem_empty id)
  | @step s l _ henabled ih =>
      obtain ⟨henabled, hcond⟩ := henabled
      have hstep := step_next henabled
      change ∀ id ∈ (s.next l).wheel.cancelSet, (s.next l).Stored id
      generalize s.next l = s' at hstep ⊢
      cases hstep with
      | allocate => exact ih
      | insert _ delayMs periodic cb => exact fun id hid => (ih id hid).add delayMs periodic cb
      | cancel other =>
          intro id hid
          obtain rfl | hold := Finset.mem_insert.mp hid
          · exact hcond
          · exact ih id hold
      | tick _ => exact stored_tick ih
      | run _ _ => exact ih
      | @reinsert t _ =>
          rw [cancelSet_settle]
          exact fun id hid => (ih id hid).settle t

/-- Ids of timers in slots are not more than these timers. -/
theorem card_le_sum_length {ι : Type*} [Fintype ι] {slots : ι → List (Timer κ)} {ids : Finset Nat}
    (h : ∀ id ∈ ids, ∃ i, ∃ t ∈ slots i, t.id = id) : ids.card ≤ ∑ i, (slots i).length := by
  have hsubset : ids ⊆ Finset.univ.biUnion fun i => ((slots i).map Timer.id).toFinset := by
    intro id hid
    obtain ⟨i, t, hmem, rfl⟩ := h id hid
    rw [Finset.mem_biUnion]
    exact ⟨i, Finset.mem_univ i, List.mem_toFinset.mpr (List.mem_map_of_mem hmem)⟩
  calc
    ids.card ≤ _ := Finset.card_le_card hsubset
    _ ≤ ∑ i, ((slots i).map Timer.id).toFinset.card := Finset.card_biUnion_le
    _ ≤ ∑ i, (slots i).length := Finset.sum_le_sum fun i _ =>
        (List.toFinset_card_le _).trans_eq (List.length_map _)

/-- As long as timers are cancelled while they stand in a slot, the notes are bounded. -/
theorem recordsBounded_of_cancelsStored
    (h : ((system κ).restrict CancelsStored).Reachable s) : s.RecordsBounded :=
  ⟨fun _ => stored_of_noted h, fun _ => card_le_sum_length (stored_of_noted h)⟩

/-- A timer that is cancelled ahead of its tick. -/
def early : List (Label Unit) := [.allocate, .insert 1 20 false (), .cancel 1, .tick, .tick]

theorem recordsBounded_early : ((system Unit).exec {} early).RecordsBounded := by
  have hinit : ((system Unit).restrict CancelsStored).Reachable {} := .init rfl
  have hstored : Stored (({} : Timers Unit).allocate.add 1 20 false ()) 1 :=
    ⟨TimerWheel.slot 2, ⟨1, 0, 2, ()⟩, List.mem_cons_self, rfl⟩
  have hadmits : ((system Unit).restrict CancelsStored).Admits {} early :=
    ⟨⟨trivial, trivial⟩, ⟨by decide, trivial⟩, ⟨trivial, hstored⟩, ⟨by decide, trivial⟩,
      ⟨by decide, trivial⟩, trivial⟩
  exact recordsBounded_of_cancelsStored (hinit.exec hadmits)

/-! ### Notes that are never crossed out -/

/-- An id is noted, and no timer with it stands in a slot or is still to be put into one. -/
structure Leaked (s : Timers κ) (id : Nat) : Prop where
  noted : id ∈ s.wheel.cancelSet
  gone : ¬s.Stored id
  inserted : id ∉ s.allocated
  handed : id < s.wheel.nextId

/-- A cancel leaks if its timer is not in a slot and was put into one before. -/
theorem leaked_cancel {id : Nat} (hgone : ¬s.Stored id) (hinserted : id ∉ s.allocated)
    (hhanded : id < s.wheel.nextId) : (s.cancel id).Leaked id :=
  ⟨Finset.mem_insert_self _ _, hgone, hinserted, hhanded⟩

theorem stored_add_iff {id other : Nat} (hne : id ≠ other) {delayMs : UInt32} {periodic : Bool}
    {cb : κ} : (s.add other delayMs periodic cb).Stored id ↔ s.Stored id := by
  refine ⟨?_, fun h => h.add delayMs periodic cb⟩
  rintro ⟨i, t, hmem, rfl⟩
  obtain hold | ⟨rfl, -⟩ := TimerWheel.mem_slots_addTimerLocked.mp hmem
  · exact ⟨i, t, hold, rfl⟩
  · exact absurd rfl hne

/-- A timer that is noted does not go back. -/
theorem not_stored_settle {id : Nat} (hnoted : id ∈ s.wheel.cancelSet) (hgone : ¬s.Stored id)
    (t : Timer κ) : ¬(s.settle t).Stored id := by
  rintro ⟨i, u, hmem, rfl⟩
  rw [Timers.settle, TimerWheel.reinsert] at hmem
  split at hmem
  · rename_i hagain
    obtain hold | ⟨rfl, -⟩ := TimerWheel.mem_slots_addTimerLocked.mp hmem
    · exact hgone ⟨i, u, hold, rfl⟩
    · exact hagain.2 hnoted
  · exact hgone ⟨i, u, hmem, rfl⟩

theorem nextId_settle (s : Timers κ) (t : Timer κ) :
    (s.settle t).wheel.nextId = s.wheel.nextId := by
  rw [Timers.settle, TimerWheel.reinsert]
  split <;> rfl

theorem Leaked.step {id : Nat} (h : s.Leaked id) {l : Label κ} {s' : Timers κ}
    (hstep : s.Step l s') : s'.Leaked id := by
  cases hstep with
  | allocate =>
      refine ⟨h.noted, h.gone, fun hmem => ?_, Nat.lt_succ_of_lt h.handed⟩
      obtain rfl | hold := Finset.mem_insert.mp hmem
      · exact absurd h.handed (Nat.lt_irrefl _)
      · exact h.inserted hold
  | @insert other hother delayMs periodic cb =>
      have hne : id ≠ other := by
        rintro rfl
        exact h.inserted hother
      exact ⟨h.noted, fun hstored => h.gone ((stored_add_iff hne).mp hstored),
        fun hmem => h.inserted (Finset.mem_of_mem_erase hmem), h.handed⟩
  | cancel other => exact ⟨Finset.mem_insert_of_mem h.noted, h.gone, h.inserted, h.handed⟩
  | tick _ =>
      refine ⟨?_, ?_, h.inserted, h.handed⟩
      · change id ∈ s.wheel.advance.cancelSet
        rw [TimerWheel.advance, TimerWheel.extraction, TimerWheel.mem_extract_cancelSet]
        exact ⟨h.noted, fun t hmem _ heq => h.gone ⟨_, t, hmem, heq⟩⟩
      · rintro ⟨i, t, hmem, heq⟩
        exact h.gone ⟨i, t, (TimerWheel.mem_slots_advance.mp hmem).1, heq⟩
  | run _ _ => exact ⟨h.noted, h.gone, h.inserted, h.handed⟩
  | @reinsert t _ =>
      refine ⟨?_, not_stored_settle h.noted h.gone t, h.inserted, ?_⟩
      · rw [cancelSet_settle]
        exact h.noted
      · rw [nextId_settle]
        exact h.handed

/-- Whatever is done afterwards, the notes are never bounded again. -/
theorem Leaked.not_recordsBounded {id : Nat} (h : s.Leaked id) {labels : List (Label κ)}
    (hadmits : (system κ).Admits s labels) (hidle : ((system κ).exec s labels).Idle) :
    ¬((system κ).exec s labels).RecordsBounded := by
  induction labels generalizing s with
  | nil => exact fun hbounded => h.gone (hbounded.stored hidle id h.noted)
  | cons l rest ih => exact ih (h.step (step_next hadmits.1)) hadmits.2 hidle

/-- A timer that fires once and is cancelled afterwards. -/
def late : List (Label Unit) :=
  [.allocate, .insert 1 0 false (), .tick, .run, .reinsert, .cancel 1]

/-- The note about a timer that has fired stays. -/
theorem recordsBounded_late :
    ¬∀ s : Timers Unit, (system Unit).Reachable s → s.RecordsBounded := by
  intro hclaim
  have hinit : (system Unit).Reachable {} := .init rfl
  have hadmits : (system Unit).Admits {} late := by decide
  have hbounded := hclaim _ (hinit.exec hadmits)
  obtain ⟨i, t, hmem, -⟩ := hbounded.stored (by decide) 1 (by decide)
  change t ∈ (TimerWheel.addTimerLocked 1 0 0 () {}).advance.slots i at hmem
  obtain ⟨hadded, hkept⟩ := TimerWheel.mem_slots_advance.mp hmem
  obtain hold | ⟨rfl, rfl⟩ := TimerWheel.mem_slots_addTimerLocked.mp hadded
  · cases hold
  · exact absurd (hkept rfl) (by decide)

end Timers

end EmbedMq
