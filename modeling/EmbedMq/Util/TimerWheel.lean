import Mathlib.Algebra.Order.Floor.Div
import Mathlib.Data.Finset.Insert
import Mathlib.Logic.Function.Basic

/-!
# The timer wheel

A wheel has 512 slots of 10 ms each. A timer stands in the slot of the tick at which it is due,
together with timers that are due some full turns earlier or later. A cancelled timer is only noted;
it is dropped when its tick takes it out of the slot. The 64-bit counters never reach their bound
and are natural numbers here.
-/

namespace EmbedMq

variable {κ : Type*}

structure Timer (κ : Type*) where
  id : Nat
  /-- Zero for a timer that fires once. -/
  intervalMs : UInt32
  fireTick : Nat
  cb : κ
  deriving DecidableEq

namespace TimerWheel

def slotCount : Nat := 512

theorem slotCount_pos : 0 < slotCount := by decide

def tickMs : UInt32 := 10

/-- The slot of a tick. -/
def slot (tick : Nat) : Fin slotCount := ⟨tick % slotCount, Nat.mod_lt tick slotCount_pos⟩

/-- The ticks of a delay. The sum is rounded up in 32 bits and widened afterwards. -/
def ticks (delayMs : UInt32) : Nat := max 1 ((delayMs + tickMs - 1) / tickMs).toNat

end TimerWheel

structure TimerWheel (κ : Type*) where
  slots : Fin TimerWheel.slotCount → List (Timer κ) := fun _ => []
  cancelSet : Finset Nat := ∅
  curTick : Nat := 0
  nextId : Nat := 1

namespace TimerWheel

/-- The tick at which a timer that is added now is due. -/
def fireTick (w : TimerWheel κ) (delayMs : UInt32) : Nat := w.curTick + ticks delayMs

def addTimerLocked (id : Nat) (delayMs intervalMs : UInt32) (cb : κ) (w : TimerWheel κ) :
    TimerWheel κ :=
  let fireTick := w.fireTick delayMs
  let bucket := w.slots (slot fireTick) ++ [⟨id, intervalMs, fireTick, cb⟩]
  { w with slots := Function.update w.slots (slot fireTick) bucket }

def cancel (id : Nat) (w : TimerWheel κ) : TimerWheel κ :=
  { w with cancelSet := insert id w.cancelSet }

/-- What a pass over a bucket leaves there, takes out to be run, and leaves of the notes. -/
structure Extraction (κ : Type*) where
  kept : List (Timer κ)
  due : List (Timer κ)
  cancelSet : Finset Nat

def extract (curTick : Nat) : List (Timer κ) → Finset Nat → Extraction κ
  | [], cancelSet => ⟨[], [], cancelSet⟩
  | t :: rest, cancelSet =>
      if t.fireTick ≤ curTick then
        if t.id ∈ cancelSet then extract curTick rest (cancelSet.erase t.id)
        else
          let e := extract curTick rest cancelSet
          { e with due := t :: e.due }
      else
        let e := extract curTick rest cancelSet
        { e with kept := t :: e.kept }

/-- The pass over the bucket of the next tick. -/
def extraction (w : TimerWheel κ) : Extraction κ :=
  extract (w.curTick + 1) (w.slots (slot (w.curTick + 1))) w.cancelSet

/-- The first critical section of `tick`; the timers to run are `extraction.due`. -/
def advance (w : TimerWheel κ) : TimerWheel κ :=
  { w with
    curTick := w.curTick + 1
    slots := Function.update w.slots (slot (w.curTick + 1)) w.extraction.kept
    cancelSet := w.extraction.cancelSet }

/-- What `tick` does after a callback: a timer that repeats and is not cancelled goes back. -/
def reinsert (t : Timer κ) (w : TimerWheel κ) : TimerWheel κ :=
  if 0 < t.intervalMs ∧ t.id ∉ w.cancelSet then
    w.addTimerLocked t.id t.intervalMs t.intervalMs t.cb
  else w

/-! ### The number of ticks -/

/-- The rounded number of ticks, without a bound on the numbers. -/
def exactTicks (delayMs : UInt32) : Nat := max 1 (delayMs.toNat ⌈/⌉ tickMs.toNat)

theorem ticks_pos (delayMs : UInt32) : 0 < ticks delayMs := Nat.le_max_left 1 _

theorem rounded_toNat (delayMs : UInt32) :
    ((delayMs + tickMs - 1) / tickMs).toNat = (delayMs.toNat + 9) % 2 ^ 32 / 10 := by
  have hsum : delayMs + tickMs - 1 = delayMs + 9 := by
    rw [tickMs]
    grind
  rw [hsum, UInt32.toNat_div, UInt32.toNat_add]
  rfl

theorem exactTicks_eq (delayMs : UInt32) :
    exactTicks delayMs = max 1 ((delayMs.toNat + 9) / 10) := by
  rw [exactTicks, Nat.ceilDiv_eq_add_pred_div]
  rfl

/-- The ticks cover the delay exactly when the sum does not wrap. -/
theorem exactTicks_le_ticks_iff (delayMs : UInt32) :
    exactTicks delayMs ≤ ticks delayMs ↔ delayMs ≤ 4294967286 := by
  have hlt := delayMs.toNat_lt
  rw [exactTicks_eq, ticks, rounded_toNat, UInt32.le_iff_toNat_le]
  change _ ↔ delayMs.toNat ≤ 4294967286
  omega

/-! ### The pass over a bucket -/

section Extract

variable {curTick : Nat} {bucket : List (Timer κ)} {cancelSet : Finset Nat}

theorem extract_kept :
    (extract curTick bucket cancelSet).kept = bucket.filter fun t => curTick < t.fireTick := by
  induction bucket generalizing cancelSet with
  | nil => rfl
  | cons t rest ih =>
      rw [extract]
      by_cases hdue : t.fireTick ≤ curTick
      · rw [if_pos hdue, List.filter_cons_of_neg (by simpa using hdue)]
        split
        · exact ih
        · exact ih
      · rw [if_neg hdue, List.filter_cons_of_pos (by simpa using hdue)]
        exact congrArg (t :: ·) ih

theorem extract_due_sublist : (extract curTick bucket cancelSet).due.Sublist bucket := by
  induction bucket generalizing cancelSet with
  | nil => exact List.Sublist.refl _
  | cons t rest ih =>
      rw [extract]
      split
      · split
        · exact List.Sublist.cons t ih
        · exact List.Sublist.cons_cons t ih
      · exact List.Sublist.cons t ih

/-- A note is gone if its timer was taken out. -/
theorem mem_extract_cancelSet {id : Nat} :
    id ∈ (extract curTick bucket cancelSet).cancelSet ↔
      id ∈ cancelSet ∧ ∀ t ∈ bucket, t.fireTick ≤ curTick → t.id ≠ id := by
  induction bucket generalizing cancelSet with
  | nil => simp [extract]
  | cons t rest ih =>
      rw [extract, List.forall_mem_cons]
      by_cases hdue : t.fireTick ≤ curTick
      · rw [if_pos hdue]
        by_cases hcancelled : t.id ∈ cancelSet
        · rw [if_pos hcancelled, ih, Finset.mem_erase]
          grind
        · rw [if_neg hcancelled]
          change id ∈ (extract curTick rest cancelSet).cancelSet ↔ _
          rw [ih]
          grind
      · rw [if_neg hdue]
        change id ∈ (extract curTick rest cancelSet).cancelSet ↔ _
        rw [ih]
        grind

/-- The timers to be run are those that are due and not cancelled. -/
theorem mem_extract_due (hnodup : (bucket.map Timer.id).Nodup) {t : Timer κ} :
    t ∈ (extract curTick bucket cancelSet).due ↔
      t ∈ bucket ∧ t.fireTick ≤ curTick ∧ t.id ∉ cancelSet := by
  induction bucket generalizing cancelSet with
  | nil => simp [extract]
  | cons first rest ih =>
      obtain ⟨hfirst, hrest⟩ := List.nodup_cons.mp hnodup
      have hne : t ∈ rest → t.id ≠ first.id := fun hmem heq =>
        hfirst (heq ▸ List.mem_map_of_mem hmem)
      rw [extract, List.mem_cons]
      by_cases hdue : first.fireTick ≤ curTick
      · rw [if_pos hdue]
        by_cases hcancelled : first.id ∈ cancelSet
        · rw [if_pos hcancelled, ih hrest, Finset.mem_erase]
          grind
        · rw [if_neg hcancelled, List.mem_cons, ih hrest]
          grind
      · rw [if_neg hdue]
        change t ∈ (extract curTick rest cancelSet).due ↔ _
        rw [ih hrest]
        grind

end Extract

/-! ### The slots after an addition -/

section Add

variable {w : TimerWheel κ} {id : Nat} {delayMs intervalMs : UInt32} {cb : κ}

theorem slots_addTimerLocked (i : Fin slotCount) :
    (w.addTimerLocked id delayMs intervalMs cb).slots i =
      if i = slot (w.fireTick delayMs) then
        w.slots (slot (w.fireTick delayMs)) ++ [⟨id, intervalMs, w.fireTick delayMs, cb⟩]
      else w.slots i :=
  Function.update_apply ..

theorem mem_slots_addTimerLocked {i : Fin slotCount} {t : Timer κ} :
    t ∈ (w.addTimerLocked id delayMs intervalMs cb).slots i ↔
      t ∈ w.slots i ∨
        t = ⟨id, intervalMs, w.fireTick delayMs, cb⟩ ∧ slot t.fireTick = i := by
  rw [slots_addTimerLocked]
  split
  · rename_i hslot
    rw [List.mem_append, List.mem_singleton, hslot]
    refine or_congr_right ⟨?_, fun h => h.1⟩
    rintro rfl
    exact ⟨rfl, rfl⟩
  · rename_i hslot
    refine ⟨.inl, ?_⟩
    rintro (hmem | ⟨rfl, heq⟩)
    · exact hmem
    · exact absurd heq.symm hslot

theorem nodup_slots_addTimerLocked (hnodup : ∀ i, ((w.slots i).map Timer.id).Nodup)
    (hnew : ∀ i, ∀ t ∈ w.slots i, t.id ≠ id) (i : Fin slotCount) :
    (((w.addTimerLocked id delayMs intervalMs cb).slots i).map Timer.id).Nodup := by
  rw [slots_addTimerLocked]
  split
  · rw [List.map_append, List.nodup_append]
    refine ⟨hnodup _, List.nodup_singleton _, ?_⟩
    rintro _ hmem _ hlast rfl
    obtain ⟨t, ht, hid⟩ := List.mem_map.mp hmem
    exact hnew _ t ht (hid.trans (List.mem_singleton.mp hlast))
  · exact hnodup i

end Add

/-! ### The slots after an extraction -/

theorem slots_advance (w : TimerWheel κ) (i : Fin slotCount) :
    w.advance.slots i =
      if i = slot (w.curTick + 1) then
        (w.slots (slot (w.curTick + 1))).filter fun t => w.curTick + 1 < t.fireTick
      else w.slots i :=
  (Function.update_apply ..).trans (by rw [extraction, extract_kept])

theorem mem_slots_advance {w : TimerWheel κ} {i : Fin slotCount} {t : Timer κ} :
    t ∈ w.advance.slots i ↔
      t ∈ w.slots i ∧ (i = slot (w.curTick + 1) → w.curTick + 1 < t.fireTick) := by
  rw [slots_advance]
  split
  · rename_i hslot
    rw [List.mem_filter, hslot]
    simp
  · rename_i hslot
    exact ⟨fun h => ⟨h, fun heq => absurd heq hslot⟩, fun h => h.1⟩

theorem nodup_slots_advance {w : TimerWheel κ} (hnodup : ∀ i, ((w.slots i).map Timer.id).Nodup)
    (i : Fin slotCount) : ((w.advance.slots i).map Timer.id).Nodup := by
  rw [slots_advance]
  split
  · exact (hnodup _).sublist (List.filter_sublist.map _)
  · exact hnodup i

end TimerWheel

end EmbedMq
