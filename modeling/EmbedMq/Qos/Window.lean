import EmbedMq.Qos.DedupWindow
import Mathlib.Order.Bounds.Basic
import Mathlib.Order.Interval.Finset.Nat

/-!
# Arrivals at a window

What a window answers to a whole history of sequence numbers. Histories are lists with the
latest entry first.

The window tells numbers apart exactly as long as they go up. A source counts modulo `2 ^ 32`,
and after the wrap the window still holds its numbers against those from before.
-/

namespace EmbedMq

namespace DedupWindow

/-- A window with the numbers that it accepted. -/
structure Log where
  window : DedupWindow := {}
  accepted : List UInt32 := []

/-- A call of `checkAndMark`. -/
def Log.feed (s : Log) (seq : UInt32) : Log :=
  { window := (s.window.checkAndMark seq).2
    accepted := if (s.window.checkAndMark seq).1 = true then s.accepted else seq :: s.accepted }

theorem sorted_nil : ([] : List UInt32).Pairwise (· < ·) := .nil

/-- A fresh window after some calls. -/
def log : List UInt32 → Log
  | [] => { window := { sorted := sorted_nil } }
  | seq :: before => (log before).feed seq

theorem Log.feed_marked {s : Log} {seq : UInt32} (hmarked : s.window.Marked seq) :
    s.feed seq = s := by
  rw [Log.feed, checkAndMark_eq, if_pos hmarked]
  rfl

theorem Log.feed_fresh {s : Log} {seq : UInt32} (hfresh : ¬s.window.Marked seq) :
    (s.feed seq).accepted = seq :: s.accepted := by
  have hfalse : (s.window.checkAndMark seq).1 ≠ true :=
    mt (checkAndMark_duplicate_iff _ _).mp hfresh
  rw [Log.feed, if_neg hfalse]

/-! ### Exactness -/

/-- The window holds the accepted numbers down to 1024 below the highest one. -/
structure Exact (s : Log) : Prop where
  hasAny : s.window.hasAny = true ↔ s.accepted ≠ []
  highWater : s.accepted ≠ [] → IsGreatest {q | q ∈ s.accepted} s.window.highWater
  recent : ∀ q, q ∈ s.window.recent ↔
    q ∈ s.accepted ∧ s.window.highWater.toNat ≤ q.toNat + 1024
  nodup : s.accepted.Nodup

namespace Exact

variable {s : Log} (h : Exact s)
include h

/-- The highest number is the highest accepted one. -/
theorem le_highWater {q : UInt32} (hq : q ∈ s.accepted) : q.toNat ≤ s.window.highWater.toNat :=
  UInt32.le_iff_toNat_le.mp ((h.highWater (List.ne_nil_of_mem hq)).2 hq)

theorem marked_iff (seq : UInt32) :
    s.window.Marked seq ↔
      s.accepted ≠ [] ∧
        (seq ∈ s.accepted ∨ seq.toNat + 1024 ≤ s.window.highWater.toNat) := by
  rw [Marked, h.hasAny, tooOld_iff, h.recent]
  constructor
  · rintro ⟨hne, hold | ⟨hmem, -⟩⟩
    · exact ⟨hne, .inr hold⟩
    · exact ⟨hne, .inl hmem⟩
  · rintro ⟨hne, hmem | hold⟩
    · refine ⟨hne, ?_⟩
      obtain hold | hnear := Nat.lt_or_ge (seq.toNat + 1024) s.window.highWater.toNat
      · exact .inl (Nat.le_of_lt hold)
      · exact .inr ⟨hmem, hnear⟩
    · exact ⟨hne, .inl hold⟩

/-- The first call. -/
theorem feed_first {seq : UInt32} (hnil : s.accepted = []) : Exact (s.feed seq) := by
  have hany : ¬s.window.hasAny = true := fun hany => h.hasAny.mp hany hnil
  have hfresh : ¬s.window.Marked seq := fun hmarked => hany hmarked.1
  have hwindow : (s.feed seq).window = s.window.markFirst seq := by
    rw [Log.feed, checkAndMark_eq, if_neg hfresh, if_neg hany]
  have hrecent : ∀ q, q ∉ s.window.recent := by
    intro q hq
    have hmem := ((h.recent q).mp hq).1
    rw [hnil] at hmem
    exact List.not_mem_nil hmem
  have haccepted := Log.feed_fresh hfresh
  rw [hnil] at haccepted
  refine ⟨?_, fun _ => ⟨?_, fun q hq => ?_⟩, fun q => ?_, ?_⟩
  · simp [hwindow, haccepted, markFirst]
  · rw [hwindow, haccepted]
    exact List.mem_singleton_self seq
  · rw [haccepted] at hq
    rw [hwindow, List.mem_singleton.mp hq]
    exact UInt32.le_refl seq
  · rw [hwindow, haccepted, List.mem_singleton]
    change q ∈ emplace s.window.recent seq ↔ q = seq ∧ seq.toNat ≤ q.toNat + 1024
    rw [mem_emplace]
    constructor
    · rintro (rfl | hq)
      · exact ⟨rfl, by omega⟩
      · exact absurd hq (hrecent q)
    · rintro ⟨rfl, -⟩
      exact .inl rfl
  · rw [haccepted]
    exact List.nodup_singleton seq

/-- A further number that is accepted. What falls out of the ordered map is too old from then
on, as the mark only rises. -/
theorem feed_next {seq : UInt32} (hne : s.accepted ≠ []) (hfresh : ¬s.window.Marked seq) :
    Exact (s.feed seq) := by
  have hany := h.hasAny.mpr hne
  have hwindow : (s.feed seq).window = s.window.markNext seq := by
    rw [Log.feed, checkAndMark_eq, if_neg hfresh, if_pos hany]
  have haccepted := Log.feed_fresh hfresh
  have hhigh := highWater_markNext s.window seq
  have hnew : seq ∉ s.accepted := fun hmem => hfresh ((h.marked_iff seq).mpr ⟨hne, .inl hmem⟩)
  refine ⟨?_, fun _ => ⟨?_, ?_⟩, fun q => ?_, ?_⟩
  · simp [hwindow, haccepted, markNext, hany]
  · -- The mark is the old one, or the new number.
    rw [hwindow, haccepted]
    refine List.mem_cons.mpr ?_
    simp only [markNext]
    split
    · exact .inl rfl
    · exact .inr (h.highWater hne).1
  · intro q hq
    rw [haccepted] at hq
    rw [hwindow, UInt32.le_iff_toNat_le, hhigh]
    obtain rfl | hq := List.mem_cons.mp hq
    · exact Nat.le_max_right _ _
    · exact Nat.le_trans (h.le_highWater hq) (Nat.le_max_left _ _)
  · rw [hwindow, haccepted, hhigh, List.mem_cons]
    change q ∈ (emplace s.window.recent seq).dropWhile (· < low (s.window.markNext seq).highWater)
      ↔ _
    rw [mem_dropWhile_lt (sorted_emplace seq s.window.sorted), mem_emplace, h.recent,
      UInt32.le_iff_toNat_le, low_toNat, hhigh]
    constructor
    · rintro ⟨hq | ⟨hq, -⟩, hlow⟩
      · exact ⟨.inl hq, by omega⟩
      · exact ⟨.inr hq, by omega⟩
    · rintro ⟨hq | hq, hlow⟩
      · exact ⟨.inl hq, by omega⟩
      · exact ⟨.inr ⟨hq, by omega⟩, by omega⟩
  · rw [haccepted]
    exact List.nodup_cons.mpr ⟨hnew, h.nodup⟩

theorem feed (seq : UInt32) : Exact (s.feed seq) := by
  by_cases hmarked : s.window.Marked seq
  · rw [Log.feed_marked hmarked]
    exact h
  · by_cases hnil : s.accepted = []
    · exact h.feed_first hnil
    · exact h.feed_next hnil hmarked

theorem feed_ne_nil (seq : UInt32) : (s.feed seq).accepted ≠ [] := by
  by_cases hmarked : s.window.Marked seq
  · rw [Log.feed_marked hmarked]
    exact ((h.marked_iff seq).mp hmarked).1
  · rw [Log.feed_fresh hmarked]
    exact List.cons_ne_nil _ _

/-- The answer to the next number, in terms of the accepted ones. -/
theorem checkAndMark_iff (seq : UInt32) :
    (s.window.checkAndMark seq).1 = false ↔
      ∀ q ∈ s.accepted, q ≠ seq ∧ q.toNat < seq.toNat + 1024 := by
  rw [← Bool.not_eq_true, checkAndMark_duplicate_iff, h.marked_iff]
  constructor
  · intro hfresh q hq
    have hne := List.ne_nil_of_mem hq
    refine ⟨?_, ?_⟩
    · rintro rfl
      exact hfresh ⟨hne, .inl hq⟩
    · have hle := h.le_highWater hq
      have hnear : ¬seq.toNat + 1024 ≤ s.window.highWater.toNat :=
        fun hold => hfresh ⟨hne, .inr hold⟩
      omega
  · rintro hall ⟨hne, hmem | hold⟩
    · exact (hall seq hmem).1 rfl
    · have hlt := (hall _ (h.highWater hne).1).2
      omega

/-- The ordered map lies in an interval of 1025 numbers. -/
theorem length_recent : s.window.recent.length ≤ 1025 := by
  have hnodup : (s.window.recent.map UInt32.toNat).Nodup := by
    refine List.Nodup.map (fun a b heq => UInt32.toNat_inj.mp heq) ?_
    exact s.window.sorted.imp fun hlt => UInt32.ne_of_lt hlt
  have hsub : (s.window.recent.map UInt32.toNat).toFinset ⊆
      Finset.Icc (s.window.highWater.toNat - 1024) s.window.highWater.toNat := by
    intro n hn
    obtain ⟨q, hq, rfl⟩ := List.mem_map.mp (List.mem_toFinset.mp hn)
    obtain ⟨hmem, hlow⟩ := (h.recent q).mp hq
    rw [Finset.mem_Icc]
    exact ⟨by omega, h.le_highWater hmem⟩
  have hcard := Finset.card_le_card hsub
  rw [List.toFinset_card_of_nodup hnodup, List.length_map, Nat.card_Icc] at hcard
  omega

end Exact

theorem exact_log (seqs : List UInt32) : Exact (log seqs) := by
  induction seqs with
  | nil => exact ⟨by simp [log], fun h => absurd rfl h, by simp [log], List.nodup_nil⟩
  | cons seq before ih => exact ih.feed seq

theorem accepted_log_eq_nil {seqs : List UInt32} : (log seqs).accepted = [] ↔ seqs = [] := by
  cases seqs with
  | nil => simp [log]
  | cons seq before =>
      have hne : (log (seq :: before)).accepted ≠ [] := (exact_log before).feed_ne_nil seq
      simp [hne]

/-- A number is accepted if it is new and not too far below the highest one that was. -/
theorem checkAndMark_exact (before : List UInt32) (seq : UInt32) :
    (((log before).window.checkAndMark seq).1 = false ↔
      seq ∉ (log before).accepted ∧
        (before = [] ∨ ∃ high, IsGreatest {q | q ∈ (log before).accepted} high ∧
          (seq > high ∨ high.toNat - seq.toNat < 1024))) ∧
    (log (seq :: before)).accepted.Nodup ∧
    (∃ high, IsGreatest {q | q ∈ (log (seq :: before)).accepted} high ∧
      ∀ q ∈ (log (seq :: before)).window.recent,
        max 0 (high.toNat - 1024) ≤ q.toNat ∧ q.toNat ≤ high.toNat) ∧
    (log (seq :: before)).window.recent.length ≤ 1025 := by
  have h := exact_log before
  have hnext := exact_log (seq :: before)
  refine ⟨?_, hnext.nodup, ⟨_, hnext.highWater (h.feed_ne_nil seq), fun q hq => ?_⟩,
    hnext.length_recent⟩
  · rw [h.checkAndMark_iff]
    constructor
    · intro hall
      refine ⟨fun hmem => (hall seq hmem).1 rfl, ?_⟩
      by_cases hnil : before = []
      · exact .inl hnil
      · have hgreatest := h.highWater (mt accepted_log_eq_nil.mp hnil)
        have hnear := (hall _ hgreatest.1).2
        exact .inr ⟨_, hgreatest, .inr (by omega)⟩
    · rintro ⟨hnew, hnear⟩ q hq
      refine ⟨fun heq => hnew (heq ▸ hq), ?_⟩
      obtain rfl | ⟨high, hgreatest, hnear⟩ := hnear
      · exact absurd hq List.not_mem_nil
      · have hle := UInt32.le_iff_toNat_le.mp (hgreatest.2 hq)
        obtain hlt | hnear := hnear
        · have hlt := UInt32.lt_iff_toNat_lt.mp hlt
          omega
        · omega
  · obtain ⟨hmem, hlow⟩ := (hnext.recent q).mp hq
    exact ⟨by omega, hnext.le_highWater hmem⟩

/-! ### A source that counts -/

/-- What happens to the messages of a source: the next number is taken, or a message arrives at
the receiver. Messages are counted from the first one on. -/
inductive Event where
  | issue
  | arrive (k : Nat)
  deriving DecidableEq

/-- The number that message `k` takes from `seqCounter_`. -/
def number (start : UInt32) (k : Nat) : UInt32 := UInt32.ofNat (start.toNat + k)

/-- How often the counter has wrapped before message `k`. -/
def lap (start : UInt32) (k : Nat) : Nat := (start.toNat + k) / 2 ^ 32

def issued (past : List Event) : Nat := past.count .issue

/-- The numbers that have arrived. -/
def arrivals (start : UInt32) : List Event → List UInt32
  | [] => []
  | .issue :: past => arrivals start past
  | .arrive k :: past => number start k :: arrivals start past

/-- A message arrives after it is issued, and for the first time before 1024 later ones are. -/
def Timely : List Event → Prop
  | [] => True
  | .issue :: past => Timely past
  | .arrive k :: past =>
      Timely past ∧ k < issued past ∧ (.arrive k ∈ past ∨ issued past - (k + 1) < 1024)

/-- No first arrival is taken for a duplicate. -/
def FirstAccepted (start : UInt32) : List Event → Prop
  | [] => True
  | .issue :: past => FirstAccepted start past
  | .arrive k :: past =>
      FirstAccepted start past ∧ (.arrive k ∈ past ∨
        ((log (arrivals start past)).window.checkAndMark (number start k)).1 = false)

/-- At no first arrival there is a message from before a wrap whose number is the same, or is
higher by 1024 or more. -/
def ClearOfEarlierLaps (start : UInt32) : List Event → Prop
  | [] => True
  | .issue :: past => ClearOfEarlierLaps start past
  | .arrive k :: past =>
      ClearOfEarlierLaps start past ∧ (.arrive k ∈ past ∨
        ∀ i, .arrive i ∈ past → lap start i < lap start k →
          number start i ≠ number start k ∧
            (number start i).toNat < (number start k).toNat + 1024)

theorem number_toNat (start : UInt32) (k : Nat) :
    (number start k).toNat + 2 ^ 32 * lap start k = start.toNat + k := by
  rw [number, UInt32.toNat_ofNat', lap, Nat.mod_add_div]

theorem mem_arrivals {start : UInt32} {past : List Event} {q : UInt32} :
    q ∈ arrivals start past ↔ ∃ i, .arrive i ∈ past ∧ number start i = q := by
  induction past with
  | nil => simp [arrivals]
  | cons event past ih =>
      cases event with
      | issue => simp [arrivals, ih]
      | arrive k => simp [arrivals, ih, eq_comm, or_and_right, exists_or]

theorem mem_of_mem_accepted {seqs : List UInt32} {q : UInt32} (h : q ∈ (log seqs).accepted) :
    q ∈ seqs := by
  induction seqs with
  | nil => exact absurd h List.not_mem_nil
  | cons seq before ih =>
      rw [log, Log.feed] at h
      dsimp only at h
      split at h
      · exact List.mem_cons_of_mem _ (ih h)
      · obtain rfl | h := List.mem_cons.mp h
        · exact List.mem_cons_self
        · exact List.mem_cons_of_mem _ (ih h)

/-- If every first arrival was accepted, all that arrived was. -/
theorem mem_accepted_of_firstAccepted {start : UInt32} {past : List Event}
    (h : FirstAccepted start past) {q : UInt32} (hq : q ∈ arrivals start past) :
    q ∈ (log (arrivals start past)).accepted := by
  induction past with
  | nil => exact hq
  | cons event past ih =>
      cases event with
      | issue => exact ih h hq
      | arrive k =>
          obtain ⟨hpast, hfirst⟩ := h
          rw [arrivals, log, Log.feed]
          dsimp only
          split
          · rename_i hdup
            obtain rfl | hq := List.mem_cons.mp hq
            · obtain hmem | hfalse := hfirst
              · exact ih hpast (mem_arrivals.mpr ⟨k, hmem, rfl⟩)
              · rw [hfalse] at hdup
                cases hdup
            · exact ih hpast hq
          · obtain rfl | hq := List.mem_cons.mp hq
            · exact List.mem_cons_self
            · exact List.mem_cons_of_mem _ (ih hpast hq)

/-- While every first arrival is accepted, the next message is measured against all that
arrived. -/
theorem firstAccepted_next {start : UInt32} {past : List Event} (h : FirstAccepted start past)
    (k : Nat) :
    ((log (arrivals start past)).window.checkAndMark (number start k)).1 = false ↔
      ∀ i, .arrive i ∈ past →
        number start i ≠ number start k ∧
          (number start i).toNat < (number start k).toNat + 1024 := by
  rw [(exact_log _).checkAndMark_iff]
  constructor
  · intro hall i hi
    exact hall _ (mem_accepted_of_firstAccepted h (mem_arrivals.mpr ⟨i, hi, rfl⟩))
  · intro hall q hq
    obtain ⟨i, hi, rfl⟩ := mem_arrivals.mp (mem_of_mem_accepted hq)
    exact hall i hi

theorem lt_issued {past : List Event} (h : Timely past) {i : Nat} (hi : .arrive i ∈ past) :
    i < issued past := by
  induction past with
  | nil => exact absurd hi List.not_mem_nil
  | cons event past ih =>
      cases event with
      | issue =>
          have hlt := ih h (by simpa using hi)
          simp only [issued, List.count_cons_self] at hlt ⊢
          omega
      | arrive k =>
          have hcount : issued (.arrive k :: past) = issued past := by simp [issued]
          rw [hcount]
          obtain heq | hi := List.mem_cons.mp hi
          · cases heq
            exact h.2.1
          · exact ih h.1 hi

/-- Messages of the same lap, or of the next one, are no obstacle to a timely arrival: at most
1023 of them are later. -/
theorem clear_of_lap_le {start : UInt32} {i k : Nat} (hne : i ≠ k) (hnear : i < k + 1024)
    (hlap : lap start k ≤ lap start i) :
    number start i ≠ number start k ∧
      (number start i).toNat < (number start k).toNat + 1024 := by
  have hi := number_toNat start i
  have hk := number_toNat start k
  have hlt := (number start i).toNat_lt
  have hmul := Nat.mul_le_mul_left (2 ^ 32) hlap
  refine ⟨fun heq => ?_, by omega⟩
  rw [heq] at hi
  omega

/-- Exactly the numbers from before a wrap can stand in the way of a new message. -/
theorem firstAccepted_iff {start : UInt32} {past : List Event} (h : Timely past) :
    FirstAccepted start past ↔ ClearOfEarlierLaps start past := by
  induction past with
  | nil => exact Iff.rfl
  | cons event past ih =>
      cases event with
      | issue => exact ih h
      | arrive k =>
          obtain ⟨hpast, hissued, htimely⟩ := h
          rw [FirstAccepted, ClearOfEarlierLaps, ← ih hpast]
          refine and_congr_right fun haccepted => ?_
          by_cases hmem : .arrive k ∈ past
          · simp [hmem]
          · rw [or_iff_right hmem, or_iff_right hmem, firstAccepted_next haccepted]
            constructor
            · intro hall i hi _
              exact hall i hi
            · intro hall i hi
              have hlt := lt_issued hpast hi
              have hnear := htimely.resolve_left hmem
              obtain hlap | hlap := Nat.lt_or_ge (lap start i) (lap start k)
              · exact hall i hi hlap
              · refine clear_of_lap_le (fun heq => hmem (heq ▸ hi)) (by omega) hlap

/-- The next message after number `2 ^ 32 - 1` has number 0, and is taken for a duplicate. -/
theorem firstAccepted_wrap : ¬∀ start past, Timely past → FirstAccepted start past := by
  intro h
  exact absurd (h 4294967295 [.arrive 1, .issue, .arrive 0, .issue] (by
    simp [Timely, issued])) (by
    simp only [FirstAccepted, arrivals]
    decide)

/-- Without a wrap every first arrival is accepted. -/
theorem firstAccepted_iff_two :
    FirstAccepted 1 [.arrive 0, .arrive 1, .issue, .issue] ↔
      ClearOfEarlierLaps 1 [.arrive 0, .arrive 1, .issue, .issue] :=
  firstAccepted_iff (by simp [Timely, issued])

end DedupWindow

end EmbedMq
