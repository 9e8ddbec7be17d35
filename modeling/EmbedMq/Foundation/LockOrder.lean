import Mathlib.Data.List.Basic

/-!
# The order in which mutexes are taken

A thread holds some mutexes and has a list of steps left, each of which takes a mutex or gives one
back. One that wants a mutex waits for its holder, who may wait in turn for another one, and so on.
If the last mutex of such a chain is held for good, the whole chain is stuck.

In the lock order a mutex comes before another one if some thread has still to take the second
while it holds the first. A chain of waiting threads runs along this order, and no step of a
thread adds to it. So whoever has no mutex left to take that comes before a given one never waits
for that one, however the threads take turns.
-/

namespace LockOrder

inductive Op (μ : Type*) where
  | lock (m : μ)
  | unlock (m : μ)
  deriving DecidableEq

/-- Steps under a lock that is given back after them. -/
def guarded {μ : Type*} (m : μ) (ops : List (Op μ)) : List (Op μ) :=
  .lock m :: (ops ++ [.unlock m])

structure Thread (μ : Type*) where
  held : List μ := []
  left : List (Op μ) := []
  deriving DecidableEq

variable {μ : Type*} [DecidableEq μ]

namespace Thread

/-- The thread does its next step. -/
def step (t : Thread μ) : Thread μ :=
  match t.left with
  | [] => t
  | .lock m :: rest => ⟨m :: t.held, rest⟩
  | .unlock m :: rest => ⟨t.held.erase m, rest⟩

theorem mem_left_of_step {t : Thread μ} {op : Op μ} (h : op ∈ t.step.left) : op ∈ t.left := by
  rw [step] at h
  split at h
  · exact h
  · next hleft => exact hleft ▸ List.mem_cons_of_mem _ h
  · next hleft => exact hleft ▸ List.mem_cons_of_mem _ h

/-- The thread has still to take `m'` while it holds `m`. -/
inductive Nests : Thread μ → μ → μ → Prop
  | now {t : Thread μ} {m m' : μ} {rest : List (Op μ)} :
      m ∈ t.held → t.left = .lock m' :: rest → Nests t m m'
  | later {t : Thread μ} {m m' : μ} : Nests t.step m m' → Nests t m m'

theorem not_nests {t : Thread μ} (h : t.left = []) (m m' : μ) : ¬ t.Nests m m' := by
  intro hnests
  induction hnests with
  | now _ hleft =>
      rw [h] at hleft
      cases hleft
  | @later t _ _ _ ih =>
      have hstep : t.step = t := by rw [step, h]
      exact ih (hstep.symm ▸ h)

end Thread

variable {threads threads' : List (Thread μ)} {root m : μ}

/-- Who waits for this mutex waits, through others, for `root`. -/
inductive Blocked (threads : List (Thread μ)) (root : μ) : μ → Prop
  | root : Blocked threads root root
  | held {t : Thread μ} {m m' : μ} {rest : List (Op μ)} : t ∈ threads → m ∈ t.held →
      t.left = .lock m' :: rest → Blocked threads root m' → Blocked threads root m

/-- The mutex is `root`, or comes before it. -/
inductive Reaches (threads : List (Thread μ)) (root : μ) : μ → Prop
  | root : Reaches threads root root
  | nests {t : Thread μ} {m m' : μ} : t ∈ threads → t.Nests m m' → Reaches threads root m' →
      Reaches threads root m

omit [DecidableEq μ] in
/-- A mutex that is waited for is held. -/
theorem Blocked.taken (h : Blocked threads root m) : m = root ∨ ∃ t ∈ threads, m ∈ t.held := by
  cases h with
  | root => exact .inl rfl
  | held hmem hheld => exact .inr ⟨_, hmem, hheld⟩

/-- Waiting runs along the lock order. -/
theorem Blocked.reaches (h : Blocked threads root m) : Reaches threads root m := by
  induction h with
  | root => exact .root
  | held hmem hheld hleft _ ih => exact .nests hmem (.now hheld hleft) ih

omit [DecidableEq μ] in
/-- The waiting goes on as long as those who wait are still there. -/
theorem Blocked.mono (h : Blocked threads root m)
    (hsame : ∀ t ∈ threads, ∀ m' rest, t.left = .lock m' :: rest → Blocked threads root m' →
      t ∈ threads') : Blocked threads' root m := by
  induction h with
  | root => exact .root
  | held hmem hheld hleft hblocked ih =>
      exact .held (hsame _ hmem _ _ hleft hblocked) hheld hleft ih

theorem Reaches.mono (h : Reaches threads root m)
    (hsub : ∀ t ∈ threads, ∀ m m', t.Nests m m' → ∃ t' ∈ threads', t'.Nests m m') :
    Reaches threads' root m := by
  induction h with
  | root => exact .root
  | nests hmem hnests _ ih =>
      obtain ⟨t', hmem', hnests'⟩ := hsub _ hmem _ _ hnests
      exact .nests hmem' hnests' ih

/-- The thread has no mutex left to take that comes before `root`. -/
def Clear (threads : List (Thread μ)) (root : μ) (t : Thread μ) : Prop :=
  ∀ m, .lock m ∈ t.left → ¬ Reaches threads root m

theorem clear_of_left_nil {t : Thread μ} (h : t.left = []) : Clear threads root t := by
  intro m hmem
  rw [h] at hmem
  cases hmem

/-- It stays so when threads do steps, and where the order only loses pairs. -/
theorem Clear.mono {t t' : Thread μ} (h : Clear threads root t)
    (hleft : ∀ op ∈ t'.left, op ∈ t.left)
    (hsub : ∀ t ∈ threads', ∀ m m', t.Nests m m' → ∃ t' ∈ threads, t'.Nests m m') :
    Clear threads' root t' :=
  fun m hmem hreaches => h m (hleft _ hmem) (hreaches.mono hsub)

/-- Such a thread does not wait for `root`. -/
theorem Clear.not_blocked {t : Thread μ} (h : Clear threads root t) {rest : List (Op μ)}
    (hleft : t.left = .lock m :: rest) : ¬ Blocked threads root m :=
  fun hblocked => h m (hleft ▸ List.mem_cons_self) hblocked.reaches

end LockOrder
