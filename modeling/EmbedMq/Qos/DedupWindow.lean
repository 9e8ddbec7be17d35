import EmbedMq.Core.Types
import Mathlib.Data.List.Sort

/-!
# The sliding window for duplicates

`DedupWindow` of `qos_engine.h`: the sequence numbers that a source has used
recently and the highest one. Numbers far below the highest one are not stored;
they count as seen. The ordered map `recent` is an ascending list, and its order
is part of the structure.
-/

namespace EmbedMq

structure DedupWindow where
  hasAny : Bool := false
  highWater : UInt32 := 0
  lastTouch : Int := 0
  recent : List UInt32 := []
  sorted : recent.Pairwise (· < ·) := by exact .nil

namespace DedupWindow

/-- `WINDOW`. -/
def window : UInt32 := 1024

/-- `std::map::emplace`: a key that is there stays. -/
def emplace (recent : List UInt32) (seq : UInt32) : List UInt32 :=
  if seq ∈ recent then recent else recent.orderedInsert (· ≤ ·) seq

theorem mem_emplace {recent : List UInt32} {seq q : UInt32} :
    q ∈ emplace recent seq ↔ q = seq ∨ q ∈ recent := by
  unfold emplace
  split
  · rename_i hmem
    constructor
    · exact Or.inr
    · rintro (rfl | h)
      · exact hmem
      · exact h
  · exact List.mem_orderedInsert (· ≤ ·)

private theorem sorted_orderedInsert {recent : List UInt32} {seq : UInt32}
    (hsorted : recent.Pairwise (· < ·)) (hfresh : seq ∉ recent) :
    (recent.orderedInsert (· ≤ ·) seq).Pairwise (· < ·) := by
  induction recent with
  | nil => exact List.pairwise_singleton _ _
  | cons first rest ih =>
      obtain ⟨hfirst, hrest⟩ := List.pairwise_cons.mp hsorted
      obtain ⟨hne, hnot⟩ := not_or.mp (mt List.mem_cons.mpr hfresh)
      rw [List.orderedInsert_cons]
      split
      · rename_i hle
        have hlt : seq < first := UInt32.lt_of_le_of_ne hle hne
        refine List.pairwise_cons.mpr ⟨fun q hq => ?_, hsorted⟩
        obtain rfl | hq := List.mem_cons.mp hq
        · exact hlt
        · exact UInt32.lt_trans hlt (hfirst q hq)
      · rename_i hle
        refine List.pairwise_cons.mpr ⟨fun q hq => ?_, ih hrest hnot⟩
        obtain rfl | hq := (List.mem_orderedInsert (· ≤ ·)).mp hq
        · exact UInt32.not_le.mp hle
        · exact hfirst q hq

theorem sorted_emplace {recent : List UInt32} (seq : UInt32)
    (hsorted : recent.Pairwise (· < ·)) : (emplace recent seq).Pairwise (· < ·) := by
  unfold emplace
  split
  · exact hsorted
  · exact sorted_orderedInsert hsorted ‹_›

/-- The lowest number that the ordered map may keep. -/
def low (highWater : UInt32) : UInt32 :=
  if window ≤ highWater then highWater - window else 0

/-- The first number of a source. -/
def markFirst (w : DedupWindow) (seq : UInt32) : DedupWindow :=
  { w with hasAny := true, highWater := seq, recent := emplace w.recent seq,
           sorted := sorted_emplace seq w.sorted }

/-- A further number: store it, raise the mark, and drop what falls out below. -/
def markNext (w : DedupWindow) (seq : UInt32) : DedupWindow :=
  let highWater := if w.highWater < seq then seq else w.highWater
  { w with highWater, recent := (emplace w.recent seq).dropWhile (· < low highWater),
           sorted := (sorted_emplace seq w.sorted).sublist (List.dropWhile_sublist _) }

/-- Whether `seq` is a duplicate, with the window afterwards. -/
def checkAndMark (w : DedupWindow) (seq : UInt32) : Bool × DedupWindow :=
  if w.hasAny = false then (false, w.markFirst seq)
  else if seq < w.highWater ∧ window ≤ w.highWater - seq then (true, w)
  else if seq ∈ w.recent then (true, w)
  else (false, w.markNext seq)

/-! ### What the window remembers -/

/-- So far below the highest number that the window no longer stores it. -/
def TooOld (w : DedupWindow) (seq : UInt32) : Prop :=
  seq < w.highWater ∧ window ≤ w.highWater - seq

instance (w : DedupWindow) (seq : UInt32) : Decidable (w.TooOld seq) :=
  inferInstanceAs (Decidable (_ ∧ _))

/-- The numbers that the window reports as duplicates. -/
def Marked (w : DedupWindow) (seq : UInt32) : Prop :=
  w.hasAny = true ∧ (w.TooOld seq ∨ seq ∈ w.recent)

instance (w : DedupWindow) (seq : UInt32) : Decidable (w.Marked seq) :=
  inferInstanceAs (Decidable (_ ∧ _))

theorem tooOld_iff {w : DedupWindow} {seq : UInt32} :
    w.TooOld seq ↔ seq.toNat + 1024 ≤ w.highWater.toNat := by
  have hwindow : window.toNat = 1024 := rfl
  constructor
  · rintro ⟨hlt, hle⟩
    rw [UInt32.lt_iff_toNat_lt] at hlt
    rw [UInt32.le_iff_toNat_le, UInt32.toNat_sub_of_le _ _ (by
      rw [UInt32.le_iff_toNat_le]; omega), hwindow] at hle
    omega
  · intro h
    have hle : seq ≤ w.highWater := by
      rw [UInt32.le_iff_toNat_le]
      omega
    refine ⟨?_, ?_⟩
    · rw [UInt32.lt_iff_toNat_lt]
      omega
    · rw [UInt32.le_iff_toNat_le, UInt32.toNat_sub_of_le _ _ hle, hwindow]
      omega

theorem low_toNat (highWater : UInt32) :
    (low highWater).toNat = highWater.toNat - 1024 := by
  have hwindow : window.toNat = 1024 := rfl
  unfold low
  split
  · rename_i hle
    rw [UInt32.toNat_sub_of_le _ _ hle, hwindow]
  · rename_i hlt
    rw [UInt32.le_iff_toNat_le, hwindow] at hlt
    have hzero : (0 : UInt32).toNat = 0 := rfl
    omega

/-- One call, in terms of what the window has marked. -/
theorem checkAndMark_eq (w : DedupWindow) (seq : UInt32) :
    w.checkAndMark seq =
      if w.Marked seq then (true, w)
      else if w.hasAny = true then (false, w.markNext seq)
      else (false, w.markFirst seq) := by
  by_cases hany : w.hasAny = true
  · by_cases hold : w.TooOld seq
    · have hguard : seq < w.highWater ∧ window ≤ w.highWater - seq := hold
      simp [checkAndMark, Marked, hany, hold, hguard]
    · have hguard : ¬ (seq < w.highWater ∧ window ≤ w.highWater - seq) := hold
      by_cases hmem : seq ∈ w.recent <;> simp [checkAndMark, Marked, hany, hold, hguard, hmem]
  · simp [checkAndMark, Marked, hany]

theorem checkAndMark_duplicate_iff (w : DedupWindow) (seq : UInt32) :
    (w.checkAndMark seq).1 = true ↔ w.Marked seq := by
  rw [checkAndMark_eq]
  split
  · simp [*]
  · split <;> simp [*]

/-- Dropping from the front of an ascending list keeps what is not below the bound. -/
theorem mem_dropWhile_lt {l : List UInt32} (hsorted : l.Pairwise (· < ·)) {bound q : UInt32} :
    q ∈ l.dropWhile (· < bound) ↔ q ∈ l ∧ bound ≤ q := by
  induction l with
  | nil => simp
  | cons first rest ih =>
      obtain ⟨hfirst, hrest⟩ := List.pairwise_cons.mp hsorted
      rw [List.dropWhile_cons]
      split
      · rename_i hlt
        have hne : bound ≤ q → q ≠ first := by
          rintro hle rfl
          exact absurd (of_decide_eq_true hlt) (UInt32.not_lt.mpr hle)
        rw [ih hrest, List.mem_cons]
        constructor
        · rintro ⟨hq, hle⟩
          exact ⟨.inr hq, hle⟩
        · rintro ⟨rfl | hq, hle⟩
          · exact absurd rfl (hne hle)
          · exact ⟨hq, hle⟩
      · rename_i hle
        have hfirstLe : bound ≤ first := UInt32.not_lt.mp (by simpa using hle)
        constructor
        · intro hq
          refine ⟨hq, ?_⟩
          obtain rfl | hq := List.mem_cons.mp hq
          · exact hfirstLe
          · exact UInt32.le_trans hfirstLe (UInt32.le_of_lt (hfirst q hq))
        · exact And.left

theorem highWater_markNext (w : DedupWindow) (seq : UInt32) :
    (w.markNext seq).highWater.toNat = max w.highWater.toNat seq.toNat := by
  simp only [markNext]
  split
  · rename_i hlt
    rw [UInt32.lt_iff_toNat_lt] at hlt
    omega
  · rename_i hle
    rw [UInt32.lt_iff_toNat_lt] at hle
    omega

end DedupWindow

end EmbedMq
