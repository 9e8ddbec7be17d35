import EmbedMq.Bus.RetainedStore
import EmbedMq.Foundation.Recency
import Mathlib.Data.Int.Order.Basic
import Mathlib.Data.List.Induction

/-!
# The retained store as a queue

`RetainedStore` keeps its messages in a hash map, and looks through the whole map for the
message that was stored first whenever there are too many. `RetainedQueue` is what this is
for: a list in the order of the last store of each topic, which drops from the front.

The two agree whatever the order in which the map is visited, provided that no two messages
are stored at the same time.
-/

namespace EmbedMq

/-- An order in which a hash map is visited; it may be another one for each content. -/
structure Iteration where
  order : Table Bytes RetainedEntry → List (Bytes × RetainedEntry)
  perm : ∀ t, (order t).Perm t.toList

namespace RetainedStore

/-- The order of the table itself. -/
def tableOrder : Iteration := ⟨Table.toList, fun _ => List.Perm.refl _⟩

def dropOldestBy (it : Iteration) (t : Table Bytes RetainedEntry) : Table Bytes RetainedEntry :=
  match oldest (it.order t) with
  | some topic => t.erase topic
  | none => t

def enforceMaxCountBy (it : Iteration) (s : RetainedStore) : RetainedStore :=
  if s.maxCount = 0 then s
  else
    let excess := s.retained.entries.length - s.maxCount.toNat
    { s with retained := Nat.iterate (dropOldestBy it) excess s.retained }

/-- `store` with the order in which the map is visited. -/
def storeBy (it : Iteration) (s : RetainedStore) (topic : Bytes) (msg : ReceivedMessage)
    (now : Int) (lifespanMs : UInt32 := 0) : RetainedStore :=
  let ttlMs := if lifespanMs ≠ 0 then lifespanMs else s.defaultTtlMs
  enforceMaxCountBy it
    { s with retained := s.retained.insert topic { msg, storedAt := now, ttlMs } }

theorem storeBy_tableOrder : storeBy tableOrder = store := rfl

/-- The number of messages that `expire` drops, which it returns. -/
def expiredCount (s : RetainedStore) (now : Int) : Nat :=
  (s.retained.toList.filter fun entry => expired now entry.2).length

/-- The calls that a store takes. -/
inductive Call where
  | configure (defaultTtlMs maxCount : UInt32)
  | store (topic : Bytes) (msg : ReceivedMessage) (now : Int) (lifespanMs : UInt32)
      (it : Iteration)
  | remove (topic : Bytes)
  | expire (now : Int)

/-- The store after a call, and what the call counts. -/
def exec : Call → RetainedStore → Option Nat × RetainedStore
  | .configure defaultTtlMs maxCount, s => (none, s.configure defaultTtlMs maxCount)
  | .store topic msg now lifespanMs it, s => (none, storeBy it s topic msg now lifespanMs)
  | .remove topic, s => (none, s.remove topic)
  | .expire now, s => (some (s.expiredCount now), s.expire now)

/-- The calls one after the other: what they count, and the state after them. -/
def run {σ : Type} (exec : Call → σ → Option Nat × σ) : List Call → σ → List (Option Nat) × σ
  | [], s => ([], s)
  | call :: rest, s =>
      let (count, s) := exec call s
      let (counts, s) := run exec rest s
      (count :: counts, s)

theorem run_concat {σ : Type} (exec : Call → σ → Option Nat × σ) (calls : List Call) (call : Call)
    (s : σ) : run exec (calls ++ [call]) s =
      ((run exec calls s).1 ++ [(exec call (run exec calls s).2).1],
        (exec call (run exec calls s).2).2) := by
  induction calls generalizing s with
  | nil => rfl
  | cons first rest ih => simp only [List.cons_append, run, ih]

/-- The time of a store. -/
def Call.storeTime? : Call → Option Int
  | .store _ _ now _ _ => some now
  | _ => none

/-- The times of the stores, in the order of the calls. -/
def storeTimes (calls : List Call) : List Int := calls.filterMap (·.storeTime?)

/-- The message that was stored last under a topic. -/
def lastStored (topic : Bytes) (calls : List Call) : Option ReceivedMessage :=
  calls.foldl (fun last call =>
    match call with
    | .store topic' msg _ _ _ => if topic' = topic then some msg else last
    | _ => last) none

end RetainedStore

/-- The messages of a retained store by the time of their last store, the oldest first. -/
structure RetainedQueue where
  entries : List (Bytes × RetainedEntry) := []
  defaultTtlMs : UInt32 := 0
  maxCount : UInt32 := 0

namespace RetainedQueue

open RetainedStore (Call expired)

/-- The queue after a call, and what the call counts. -/
def exec : Call → RetainedQueue → Option Nat × RetainedQueue
  | .configure defaultTtlMs maxCount, q => (none, { q with defaultTtlMs, maxCount })
  | .store topic msg now lifespanMs _, q =>
      let ttlMs := if 0 < lifespanMs then lifespanMs else q.defaultTtlMs
      (none, { q with
        entries := Recency.trim q.maxCount.toNat
          (Recency.touch topic { msg, storedAt := now, ttlMs } q.entries) })
  | .remove topic, q =>
      (none, { q with entries := q.entries.filter fun entry => entry.1 ≠ topic })
  | .expire now, q =>
      (some (q.entries.countP fun entry => expired now entry.2),
        { q with entries := q.entries.filter fun entry => !expired now entry.2 })

end RetainedQueue

namespace RetainedStore

open Table (Lists)

/-- The store has the messages and the limits of the queue. -/
structure Represents (q : RetainedQueue) (s : RetainedStore) : Prop where
  lists : Lists q.entries s.retained
  defaultTtlMs : s.defaultTtlMs = q.defaultTtlMs
  maxCount : s.maxCount = q.maxCount
  increasing : q.entries.Pairwise fun a b => a.2.storedAt < b.2.storedAt

/-! ### Eviction -/

/-- Whatever the order of the scan, it finds the front of the queue. -/
theorem dropOldestBy_front (it : Iteration) {front : Bytes × RetainedEntry}
    {rest : List (Bytes × RetainedEntry)} {t : Table Bytes RetainedEntry}
    (hlists : Lists (front :: rest) t)
    (hincreasing : (front :: rest).Pairwise fun a b => a.2.storedAt < b.2.storedAt) :
    dropOldestBy it t = t.erase front.1 := by
  have hperm := (it.perm t).trans hlists.perm_toList.symm
  have holdest : oldest (it.order t) = some front.1 := by
    cases horder : it.order t with
    | nil =>
        rw [horder] at hperm
        exact absurd hperm.symm (List.cons_ne_nil _ _ ∘ List.Perm.eq_nil)
    | cons first others =>
        rw [horder] at hperm
        have hscan := Recency.scan_eq_front (fun entry => entry.2.storedAt) hincreasing hperm
        exact congrArg (fun found => some found.1) hscan
  rw [dropOldestBy, holdest]

theorem lists_iterate (it : Iteration) (n : Nat) {q : List (Bytes × RetainedEntry)}
    {t : Table Bytes RetainedEntry} (hlists : Lists q t)
    (hincreasing : q.Pairwise fun a b => a.2.storedAt < b.2.storedAt) (hn : n ≤ q.length) :
    Lists (q.drop n) (Nat.iterate (dropOldestBy it) n t) := by
  induction n generalizing q t with
  | zero => exact hlists
  | succ n ih =>
      cases q with
      | nil => exact absurd hn (Nat.not_succ_le_zero n)
      | cons front rest =>
          rw [Function.iterate_succ_apply, dropOldestBy_front it hlists hincreasing,
            List.drop_succ_cons]
          exact ih (hlists.tail rfl) hincreasing.of_cons (Nat.le_of_succ_le_succ hn)

theorem lists_enforceMaxCount (it : Iteration) {q : List (Bytes × RetainedEntry)}
    {s : RetainedStore} (hlists : Lists q s.retained)
    (hincreasing : q.Pairwise fun a b => a.2.storedAt < b.2.storedAt) :
    Lists (Recency.trim s.maxCount.toNat q) (enforceMaxCountBy it s).retained := by
  rw [enforceMaxCountBy]
  split
  · next hzero =>
      rw [hzero]
      exact (Recency.trim_zero q).symm ▸ hlists
  · next hlimit =>
      have hpos : 0 < s.maxCount.toNat := by
        refine Nat.pos_of_ne_zero fun hzero => hlimit ?_
        exact UInt32.toNat_inj.mp hzero
      rw [Recency.trim_eq_drop hpos, hlists.length_eq]
      exact lists_iterate it _ hlists hincreasing (Nat.sub_le _ _)

@[simp] theorem enforceMaxCountBy_defaultTtlMs (it : Iteration) (s : RetainedStore) :
    (enforceMaxCountBy it s).defaultTtlMs = s.defaultTtlMs := by
  rw [enforceMaxCountBy]
  split <;> rfl

@[simp] theorem enforceMaxCountBy_maxCount (it : Iteration) (s : RetainedStore) :
    (enforceMaxCountBy it s).maxCount = s.maxCount := by
  rw [enforceMaxCountBy]
  split <;> rfl

/-! ### One call -/

namespace Represents

variable {q : RetainedQueue} {s : RetainedStore} (h : Represents q s)
include h

theorem exec_configure (defaultTtlMs maxCount : UInt32) :
    Represents (q.exec (.configure defaultTtlMs maxCount)).2
      (s.exec (.configure defaultTtlMs maxCount)).2 :=
  ⟨h.lists, rfl, rfl, h.increasing⟩

theorem exec_remove (topic : Bytes) :
    Represents (q.exec (.remove topic)).2 (s.exec (.remove topic)).2 :=
  ⟨h.lists.erase topic, h.defaultTtlMs, h.maxCount, h.increasing.sublist List.filter_sublist⟩

theorem exec_expire (now : Int) :
    (s.exec (.expire now)).1 = (q.exec (.expire now)).1 ∧
      Represents (q.exec (.expire now)).2 (s.exec (.expire now)).2 := by
  refine ⟨congrArg some ?_, ?_, h.defaultTtlMs, h.maxCount,
    h.increasing.sublist List.filter_sublist⟩
  · rw [expiredCount, ← List.countP_eq_length_filter]
    exact (h.lists.perm_toList.countP_eq _).symm
  · have hsweep := h.lists.sweep fun e => !expired now e
    have hexpire : (s.exec (.expire now)).2.retained =
        s.retained.sweep fun _ e => if !expired now e then some e else none := by
      have hkeep : (fun (_ : Bytes) e => if expired now e then none else some e) =
          fun _ e => if !expired now e then some e else none := by
        funext _ e
        cases expired now e <;> rfl
      rw [← hkeep]
      rfl
    rw [hexpire]
    exact hsweep

/-- A message that is stored later than all others goes to the back. -/
theorem exec_store (topic : Bytes) (msg : ReceivedMessage) {now : Int} (lifespanMs : UInt32)
    (it : Iteration) (hnow : ∀ entry ∈ q.entries, entry.2.storedAt < now) :
    Represents (q.exec (.store topic msg now lifespanMs it)).2
      (s.exec (.store topic msg now lifespanMs it)).2 := by
  have httl : (if 0 < lifespanMs then lifespanMs else q.defaultTtlMs) =
      if lifespanMs ≠ 0 then lifespanMs else s.defaultTtlMs := by
    rw [h.defaultTtlMs]
    refine if_congr ?_ rfl rfl
    rw [UInt32.lt_iff_toNat_lt, Ne, ← UInt32.toNat_inj]
    exact Nat.pos_iff_ne_zero
  have htouched : (Recency.touch topic
      (RetainedEntry.mk msg now (if lifespanMs ≠ 0 then lifespanMs else s.defaultTtlMs))
      q.entries).Pairwise fun a b => a.2.storedAt < b.2.storedAt := by
    refine List.pairwise_append.mpr ⟨h.increasing.sublist List.filter_sublist, ?_, ?_⟩
    · exact List.pairwise_singleton _ _
    · intro a ha b hb
      rw [List.mem_singleton.mp hb]
      exact hnow a (List.mem_of_mem_filter ha)
  simp only [RetainedQueue.exec, exec, httl]
  refine ⟨?_, ?_, ?_, htouched.sublist (Recency.trim_suffix _ _).sublist⟩
  · rw [← h.maxCount]
    have hinsert := h.lists.insert topic
      (RetainedEntry.mk msg now (if lifespanMs ≠ 0 then lifespanMs else s.defaultTtlMs))
    exact lists_enforceMaxCount (s := { s with retained := _ }) it hinsert htouched
  · rw [storeBy, enforceMaxCountBy_defaultTtlMs]
    exact h.defaultTtlMs
  · rw [storeBy, enforceMaxCountBy_maxCount]
    exact h.maxCount

theorem get_iff {topic : Bytes} {msg : ReceivedMessage} :
    s.get topic = some msg ↔ ∃ e, (topic, e) ∈ q.entries ∧ e.msg = msg := by
  rw [get, Option.map_eq_some_iff]
  simp only [h.lists.mem_iff]

end Represents

/-! ### Runs -/

theorem storeTimes_concat (calls : List Call) (call : Call) :
    storeTimes (calls ++ [call]) = storeTimes calls ++ call.storeTime?.toList := by
  rw [storeTimes, List.filterMap_append, storeTimes]
  cases hstore : call.storeTime? <;> simp [hstore]

theorem lastStored_concat_store (topic topic' : Bytes) (calls : List Call) (msg : ReceivedMessage)
    (now : Int) (lifespanMs : UInt32) (it : Iteration) :
    lastStored topic (calls ++ [.store topic' msg now lifespanMs it]) =
      if topic' = topic then some msg else lastStored topic calls := by
  rw [lastStored, List.foldl_concat]
  rfl

/-- What a queue holds comes from the calls: the stamps are times of stores, and the message of a
topic is the one stored last. -/
structure Stored (calls : List Call) (entries : List (Bytes × RetainedEntry)) : Prop where
  stamp : ∀ entry ∈ entries, entry.2.storedAt ∈ storeTimes calls
  message : ∀ entry ∈ entries, lastStored entry.1 calls = some entry.2.msg

namespace Stored

variable {calls : List Call} {entries kept : List (Bytes × RetainedEntry)}

theorem mono (h : Stored calls entries) (hkept : ∀ entry ∈ kept, entry ∈ entries) :
    Stored calls kept :=
  ⟨fun entry hentry => h.stamp entry (hkept entry hentry),
    fun entry hentry => h.message entry (hkept entry hentry)⟩

/-- A call that stores nothing leaves what was stored. -/
theorem concat {call : Call} (h : Stored calls entries) (hcall : call.storeTime? = none) :
    Stored (calls ++ [call]) entries := by
  refine ⟨fun entry hentry => ?_, fun entry hentry => ?_⟩
  · rw [storeTimes_concat]
    exact List.mem_append_left _ (h.stamp entry hentry)
  · rw [← h.message entry hentry, lastStored, List.foldl_concat, lastStored]
    cases call with
    | store => cases hcall
    | configure => rfl
    | remove => rfl
    | expire => rfl

theorem touch (h : Stored calls entries) (topic : Bytes) (e : RetainedEntry) (lifespanMs : UInt32)
    (it : Iteration) :
    Stored (calls ++ [.store topic e.msg e.storedAt lifespanMs it])
      (Recency.touch topic e entries) := by
  refine ⟨fun entry hentry => ?_, fun entry hentry => ?_⟩
  · rw [storeTimes_concat, List.mem_append]
    obtain hold | hnew := List.mem_append.mp hentry
    · exact Or.inl (h.stamp entry (List.mem_of_mem_filter hold))
    · rw [List.mem_singleton.mp hnew]
      exact Or.inr List.mem_cons_self
  · rw [lastStored_concat_store]
    obtain hold | hnew := List.mem_append.mp hentry
    · have hne : entry.1 ≠ topic := by simpa using (List.mem_filter.mp hold).2
      rw [if_neg hne.symm]
      exact h.message entry (List.mem_of_mem_filter hold)
    · rw [List.mem_singleton.mp hnew, if_pos rfl]

end Stored

/-- One more call: the two count the same and still agree. -/
theorem Represents.exec {q : RetainedQueue} {s : RetainedStore} {calls : List Call} {call : Call}
    (h : Represents q s) (hstored : Stored calls q.entries)
    (htimes : (storeTimes (calls ++ [call])).Pairwise (· < ·)) :
    (s.exec call).1 = (q.exec call).1 ∧ Represents (q.exec call).2 (s.exec call).2 ∧
      Stored (calls ++ [call]) (q.exec call).2.entries := by
  cases call with
  | configure defaultTtlMs maxCount =>
      exact ⟨rfl, h.exec_configure defaultTtlMs maxCount, hstored.concat rfl⟩
  | remove topic =>
      exact ⟨rfl, h.exec_remove topic,
        (hstored.concat rfl).mono fun entry hentry => List.mem_of_mem_filter hentry⟩
  | expire now =>
      obtain ⟨hcount, hrest⟩ := h.exec_expire now
      exact ⟨hcount, hrest,
        (hstored.concat rfl).mono fun entry hentry => List.mem_of_mem_filter hentry⟩
  | store topic msg now lifespanMs it =>
      have hnow : ∀ entry ∈ q.entries, entry.2.storedAt < now := by
        intro entry hentry
        rw [storeTimes_concat] at htimes
        exact (List.pairwise_append.mp htimes).2.2 _ (hstored.stamp entry hentry) _
          List.mem_cons_self
      have htouch := hstored.touch topic
        ⟨msg, now, if 0 < lifespanMs then lifespanMs else q.defaultTtlMs⟩ lifespanMs it
      exact ⟨rfl, h.exec_store topic msg lifespanMs it hnow,
        htouch.mono fun entry hentry => (Recency.trim_suffix _ _).subset hentry⟩

theorem represents_run {calls : List Call} (htimes : (storeTimes calls).Pairwise (· < ·)) :
    (run exec calls {}).1 = (run RetainedQueue.exec calls {}).1 ∧
      Represents (run RetainedQueue.exec calls {}).2 (run exec calls {}).2 ∧
      Stored calls (run RetainedQueue.exec calls {}).2.entries := by
  induction calls using List.reverseRecOn with
  | nil =>
      refine ⟨rfl, ⟨Table.Lists.nil, rfl, rfl, List.Pairwise.nil⟩, ?_, ?_⟩
      · exact fun entry hentry => absurd hentry List.not_mem_nil
      · exact fun entry hentry => absurd hentry List.not_mem_nil
  | append_singleton calls call ih =>
      have hbefore : (storeTimes calls).Pairwise (· < ·) := by
        rw [storeTimes_concat] at htimes
        exact (List.pairwise_append.mp htimes).1
      obtain ⟨hcounts, hrepresents, hstored⟩ := ih hbefore
      obtain ⟨hcount, hafter⟩ := hrepresents.exec hstored htimes
      rw [run_concat, run_concat, hcounts, hcount]
      exact ⟨rfl, hafter⟩

theorem mem_exec_store (q : RetainedQueue) (topic : Bytes) (msg : ReceivedMessage) (now : Int)
    (lifespanMs : UInt32) (it : Iteration) :
    ∃ e, (topic, e) ∈ (q.exec (.store topic msg now lifespanMs it)).2.entries ∧ e.msg = msg :=
  ⟨⟨msg, now, _⟩, Recency.last_mem_trim _ _ _, rfl⟩

/-- If no two messages are stored at the same time, then the store has the messages and the limits
of the queue after any calls, and its `expire` counts what the queue drops. A message that was just
stored is there, and what is there for a topic is the message stored last. -/
theorem refines_queue (calls : List Call) (htimes : (storeTimes calls).Pairwise (· < ·)) :
    (run exec calls {}).1 = (run RetainedQueue.exec calls {}).1 ∧
      Represents (run RetainedQueue.exec calls {}).2 (run exec calls {}).2 ∧
      (∀ before topic msg now lifespanMs it,
        calls = before ++ [.store topic msg now lifespanMs it] →
          (run exec calls {}).2.get topic = some msg) ∧
      ∀ topic msg, (run exec calls {}).2.get topic = some msg →
        lastStored topic calls = some msg := by
  obtain ⟨hcounts, hrepresents, hstored⟩ := represents_run htimes
  refine ⟨hcounts, hrepresents, ?_, ?_⟩
  · intro before topic msg now lifespanMs it hcalls
    rw [hrepresents.get_iff, hcalls, run_concat]
    exact mem_exec_store _ topic msg now lifespanMs it
  · intro topic msg hget
    obtain ⟨e, hmem, rfl⟩ := hrepresents.get_iff.mp hget
    exact hstored.message _ hmem

/-- With a limit of one message, the second of two topics stays. -/
theorem refines_queue_limited :
    (run exec [.configure 0 1, .store [0x61] ⟨[0x61], [1], 0, 1, 1, 0⟩ 10 0 tableOrder,
      .store [0x62] ⟨[0x62], [2], 0, 1, 2, 0⟩ 20 0 tableOrder] {}).2.get [0x62] =
        some ⟨[0x62], [2], 0, 1, 2, 0⟩ :=
  (refines_queue _ (by decide)).2.2.1 [_, _] _ _ _ _ _ rfl

end RetainedStore

end EmbedMq
