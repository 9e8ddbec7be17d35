import EmbedMq.Foundation.Transition
import Mathlib.Algebra.Order.BigOperators.Group.List
import Mathlib.Algebra.Order.Ring.Nat

/-!
# Threads over a shared state

A program is cut into atomic actions. An action reads an input, changes the shared
state, has effects, and says which actions its thread does next. A call is the list
of the actions that are left of it, and any number of calls may be in progress: a
step lets one of them run its next action. A call keeps its place in the list of
calls, also when it has returned, and the place identifies it. The log keeps every
action that was run, newest first, with the shared state it found.

Some facts about all interleavings are proved once. `origin_waiting` and
`origin_logged` trace an action back to the action that asked for it, and `passed_on`
says that what every action passes on to those that it asks for is true of all. The account of
a resource adds up what the shared state holds, what the calls in progress owe and
what was paid out so far; it never grows if no single action makes it grow.
-/

/-- What running an action leads to. -/
structure Outcome (σ α ε : Type*) where
  state : σ
  effects : List ε := []
  next : List α := []

/-- An action that was run by a call, with the state and the input it found. -/
structure Event (σ ι α : Type*) where
  call : Nat
  before : σ
  input : ι
  action : α

/-- What the action of an event led to. -/
def Event.outcome {σ ι α ε : Type*} (run : ι → α → σ → Outcome σ α ε) (e : Event σ ι α) :
    Outcome σ α ε :=
  run e.input e.action e.before

/-- Calls in progress over a shared state. -/
structure Threads (σ ι α : Type*) where
  shared : σ
  /-- What is left to do of each call, in the order in which they began. -/
  calls : List (List α)
  log : List (Event σ ι α)

namespace Threads

variable {σ ι α ε : Type*}

inductive Label (ι α : Type*) where
  | start (actions : List α)
  | step (i : Nat) (input : ι)

variable (run : ι → α → σ → Outcome σ α ε)

/-- The state after call `i` has run its action `a`, with `rest` to follow. -/
def stepped (s : Threads σ ι α) (i : Nat) (input : ι) (a : α) (rest : List α) :
    Threads σ ι α where
  shared := (run input a s.shared).state
  calls := s.calls.set i ((run input a s.shared).next ++ rest)
  log := ⟨i, s.shared, input, a⟩ :: s.log

def next (s : Threads σ ι α) : Label ι α → Threads σ ι α
  | .start actions => { s with calls := s.calls ++ [actions] }
  | .step i input =>
      match s.calls[i]? with
      | some (a :: rest) => s.stepped run i input a rest
      | _ => s

/-- A call that has something left to do. -/
def Busy (s : Threads σ ι α) (i : Nat) : Prop :=
  ∃ a rest, s.calls[i]? = some (a :: rest)

/-- All interleavings of the calls in `entry`. -/
def system (init : σ → Prop) (entry : List α → Prop) :
    TransitionSystem (Threads σ ι α) (Label ι α) where
  init s := init s.shared ∧ s.calls = [] ∧ s.log = []
  enabled s
    | .start actions => entry actions
    | .step i _ => s.Busy i
  next := next run

variable {run} {init : σ → Prop} {entry : List α → Prop} {s : Threads σ ι α}
  {cond : Threads σ ι α → Label ι α → Prop}

theorem next_step {i : Nat} {input : ι} {a : α} {rest : List α}
    (h : s.calls[i]? = some (a :: rest)) :
    s.next run (.step i input) = s.stepped run i input a rest := by
  simp only [next, h]

/-- An invariant is kept by every start of a call and by every action. -/
theorem invariant {motive : Threads σ ι α → Prop}
    (h : ((system run init entry).restrict cond).Reachable s)
    (hinit : ∀ s, init s.shared → s.calls = [] → s.log = [] → motive s)
    (hstart : ∀ s actions, ((system run init entry).restrict cond).Reachable s → motive s →
      entry actions → cond s (.start actions) →
      motive { s with calls := s.calls ++ [actions] })
    (hstep : ∀ s i input a rest, ((system run init entry).restrict cond).Reachable s →
      motive s → s.calls[i]? = some (a :: rest) → cond s (.step i input) →
      motive (s.stepped run i input a rest)) : motive s := by
  induction h with
  | init hs => exact hinit _ hs.1 hs.2.1 hs.2.2
  | @step s l hreach henabled ih =>
      cases l with
      | start actions => exact hstart s actions hreach ih henabled.1 henabled.2
      | step i input =>
          obtain ⟨⟨a, rest, hcall⟩, hcond⟩ := henabled
          change motive (s.next run (.step i input))
          rw [next_step hcall]
          exact hstep s i input a rest hreach ih hcall hcond

theorem reachable_start (h : ((system run init entry).restrict cond).Reachable s)
    {actions : List α} (hentry : entry actions) (hcond : cond s (.start actions)) :
    ((system run init entry).restrict cond).Reachable (s.next run (.start actions)) := by
  have henabled : ((system run init entry).restrict cond).enabled s (.start actions) :=
    ⟨hentry, hcond⟩
  exact h.step henabled

theorem reachable_step (h : ((system run init entry).restrict cond).Reachable s) {i : Nat}
    {input : ι} (hbusy : s.Busy i) (hcond : cond s (.step i input)) :
    ((system run init entry).restrict cond).Reachable (s.next run (.step i input)) := by
  have henabled : ((system run init entry).restrict cond).enabled s (.step i input) :=
    ⟨hbusy, hcond⟩
  exact h.step henabled

/-! ### Schedules -/

/-- Every step of a schedule finds its call busy. -/
def Runs (run : ι → α → σ → Outcome σ α ε) : Threads σ ι α → List (Label ι α) → Bool
  | _, [] => true
  | s, .start actions :: rest => Runs run (s.next run (.start actions)) rest
  | s, .step i input :: rest =>
      (match s.calls[i]? with
        | some (_ :: _) => true
        | _ => false) && Runs run (s.next run (.step i input)) rest

/-- Every step of a schedule meets a condition. -/
def Along (run : ι → α → σ → Outcome σ α ε) (cond : Threads σ ι α → Label ι α → Prop) :
    Threads σ ι α → List (Label ι α) → Prop
  | _, [] => True
  | s, l :: rest => cond s l ∧ Along run cond (s.next run l) rest

theorem reachable_of_runs {labels : List (Label ι α)}
    (h : ((system run init entry).restrict cond).Reachable s) (hruns : Runs run s labels = true)
    (hentry : ∀ actions, .start actions ∈ labels → entry actions)
    (halong : Along run cond s labels) :
    ((system run init entry).restrict cond).Reachable (labels.foldl (next run) s) := by
  induction labels generalizing s with
  | nil => exact h
  | cons l rest ih =>
      have hrest := fun actions hmem => hentry actions (List.mem_cons_of_mem l hmem)
      cases l with
      | start actions =>
          have hnext := reachable_start h (hentry actions List.mem_cons_self) halong.1
          exact ih hnext hruns hrest halong.2
      | step i input =>
          obtain ⟨hbusy, hruns⟩ := Bool.and_eq_true_iff.mp hruns
          split at hbusy
          · rename_i a more hcall
            have hnext := reachable_step h ⟨a, more, hcall⟩ halong.1
            exact ih hnext hruns hrest halong.2
          · exact absurd hbusy Bool.false_ne_true

/-- A check that implies the condition passes at every step. -/
def Checks (run : ι → α → σ → Outcome σ α ε) (check : Threads σ ι α → Label ι α → Bool) :
    Threads σ ι α → List (Label ι α) → Bool
  | _, [] => true
  | s, l :: rest => check s l && Checks run check (s.next run l) rest

theorem along_of_checks {check : Threads σ ι α → Label ι α → Bool}
    (hcheck : ∀ s l, check s l = true → cond s l) {labels : List (Label ι α)}
    (h : Checks run check s labels = true) : Along run cond s labels := by
  induction labels generalizing s with
  | nil => exact trivial
  | cons l rest ih =>
      obtain ⟨hfirst, hrest⟩ := Bool.and_eq_true_iff.mp h
      exact ⟨hcheck s l hfirst, ih hrest⟩

theorem along_true (labels : List (Label ι α)) : Along run (fun _ _ => True) s labels := by
  induction labels generalizing s with
  | nil => exact trivial
  | cons l rest ih => exact ⟨trivial, ih⟩

/-! ### Actions that are still to be run -/

/-- Call `i` has the action `a` still to run. -/
def Waiting (s : Threads σ ι α) (i : Nat) (a : α) : Prop :=
  ∃ call, s.calls[i]? = some call ∧ a ∈ call

theorem waiting_start {actions : List α} {i : Nat} {a : α}
    (h : Waiting { s with calls := s.calls ++ [actions] } i a) :
    (i = s.calls.length ∧ a ∈ actions) ∨ s.Waiting i a := by
  obtain ⟨call, hcall, hmem⟩ := h
  change (s.calls ++ [actions])[i]? = some call at hcall
  obtain hlt | hge := Nat.lt_or_ge i s.calls.length
  · rw [List.getElem?_append_left hlt] at hcall
    exact Or.inr ⟨call, hcall, hmem⟩
  · rw [List.getElem?_append_right hge, List.getElem?_singleton] at hcall
    split at hcall
    · obtain rfl := Option.some.inj hcall
      exact Or.inl ⟨by omega, hmem⟩
    · cases hcall

theorem Waiting.start {i : Nat} {a : α} (h : s.Waiting i a) (actions : List α) :
    Waiting { s with calls := s.calls ++ [actions] } i a := by
  obtain ⟨call, hcall, hmem⟩ := h
  refine ⟨call, ?_, hmem⟩
  have hlt := (List.getElem?_eq_some_iff.mp hcall).1
  change (s.calls ++ [actions])[i]? = some call
  rw [List.getElem?_append_left hlt, hcall]

section Stepped

variable {i : Nat} {input : ι} {a : α} {rest : List α} (hcall : s.calls[i]? = some (a :: rest))
include hcall

theorem stepped_calls_self :
    (s.stepped run i input a rest).calls[i]? = some ((run input a s.shared).next ++ rest) := by
  have hlt := (List.getElem?_eq_some_iff.mp hcall).1
  exact List.getElem?_set_self hlt

omit hcall in
theorem stepped_calls_ne {j : Nat} (h : j ≠ i) :
    (s.stepped run i input a rest).calls[j]? = s.calls[j]? :=
  List.getElem?_set_ne h.symm

/-- What waits after a step was waiting before, or the action has asked for it. -/
theorem waiting_stepped {j : Nat} {b : α}
    (h : (s.stepped run i input a rest).Waiting j b) :
    (j = i ∧ b ∈ (run input a s.shared).next) ∨ s.Waiting j b := by
  obtain ⟨call, hafter, hmem⟩ := h
  by_cases hj : j = i
  · subst hj
    rw [stepped_calls_self hcall] at hafter
    obtain rfl := Option.some.inj hafter
    obtain hnew | hrest := List.mem_append.mp hmem
    · exact Or.inl ⟨rfl, hnew⟩
    · exact Or.inr ⟨_, hcall, List.mem_cons_of_mem _ hrest⟩
  · rw [stepped_calls_ne hj] at hafter
    exact Or.inr ⟨call, hafter, hmem⟩

/-- An action waits until it is run. -/
theorem Waiting.stepped {j : Nat} {b : α} (h : s.Waiting j b)
    (run : ι → α → σ → Outcome σ α ε) (input : ι) :
    (j = i ∧ b = a) ∨ (s.stepped run i input a rest).Waiting j b := by
  obtain ⟨call, hbefore, hmem⟩ := h
  by_cases hj : j = i
  · subst hj
    obtain rfl := Option.some.inj (hcall.symm.trans hbefore)
    obtain rfl | hrest := List.mem_cons.mp hmem
    · exact Or.inl ⟨rfl, rfl⟩
    · exact Or.inr ⟨_, stepped_calls_self hcall, List.mem_append_right _ hrest⟩
  · refine Or.inr ⟨call, ?_, hmem⟩
    rw [stepped_calls_ne hj]
    exact hbefore

theorem waiting_next {b : α} (h : b ∈ (run input a s.shared).next) :
    (s.stepped run i input a rest).Waiting i b :=
  ⟨_, stepped_calls_self hcall, List.mem_append_left _ h⟩

theorem waiting_head : s.Waiting i a := ⟨_, hcall, List.mem_cons_self⟩

end Stepped

/-! ### Where an action comes from -/

/-- An action of call `i` stands in an entry point, or an event of the call asked for it. -/
def Asked (run : ι → α → σ → Outcome σ α ε) (entry : List α → Prop) (log : List (Event σ ι α))
    (i : Nat) (a : α) : Prop :=
  (∃ actions, entry actions ∧ a ∈ actions) ∨
    ∃ e ∈ log, e.call = i ∧ a ∈ (e.outcome run).next

theorem Asked.cons {log : List (Event σ ι α)} {i : Nat} {a : α} (h : Asked run entry log i a)
    (e : Event σ ι α) : Asked run entry (e :: log) i a := by
  obtain hentry | ⟨e', hmem, hrest⟩ := h
  · exact Or.inl hentry
  · exact Or.inr ⟨e', List.mem_cons_of_mem _ hmem, hrest⟩

theorem origin_waiting (h : ((system run init entry).restrict cond).Reachable s) {i : Nat} {a : α}
    (hwaiting : s.Waiting i a) : Asked run entry s.log i a := by
  refine invariant (motive := fun s => ∀ i a, s.Waiting i a → Asked run entry s.log i a)
    h ?_ ?_ ?_ i a hwaiting
  · rintro s _ hcalls _ i a ⟨call, hcall, _⟩
    rw [hcalls] at hcall
    cases hcall
  · intro s actions _ hinv hentry _ i a hwaiting
    obtain ⟨_, hmem⟩ | hold := waiting_start hwaiting
    · exact Or.inl ⟨actions, hentry, hmem⟩
    · exact hinv i a hold
  · intro s j input b rest _ hinv hcall _ i a hwaiting
    obtain ⟨rfl, hnew⟩ | hold := waiting_stepped hcall hwaiting
    · exact Or.inr ⟨_, List.mem_cons_self, rfl, hnew⟩
    · exact (hinv i a hold).cons _

/-- An event was the next action of its call in a state that the run has passed through. -/
theorem event_origin (h : ((system run init entry).restrict cond).Reachable s)
    {post pre : List (Event σ ι α)} {e : Event σ ι α} (hlog : s.log = post ++ e :: pre) :
    ∃ t rest, ((system run init entry).restrict cond).Reachable t ∧ t.log = pre ∧
      t.shared = e.before ∧ t.calls[e.call]? = some (e.action :: rest) ∧
      cond t (.step e.call e.input) := by
  refine invariant (motive := fun s => ∀ post, s.log = post ++ e :: pre →
    ∃ t rest, ((system run init entry).restrict cond).Reachable t ∧ t.log = pre ∧
      t.shared = e.before ∧ t.calls[e.call]? = some (e.action :: rest) ∧
      cond t (.step e.call e.input)) h ?_ ?_ ?_ post hlog
  · intro s _ _ hnil post hlog
    rw [hnil] at hlog
    exact absurd hlog.symm (by simp)
  · intro s actions _ hinv _ _
    exact hinv
  · intro s i input a rest hreach hinv hcall hcond post hlog
    cases post with
    | nil =>
        obtain ⟨rfl, rfl⟩ := List.cons.inj hlog
        exact ⟨s, rest, hreach, rfl, rfl, hcall, hcond⟩
    | cons first post => exact hinv post (List.cons.inj hlog).2

theorem origin_logged (h : ((system run init entry).restrict cond).Reachable s)
    {post pre : List (Event σ ι α)} {e : Event σ ι α} (hlog : s.log = post ++ e :: pre) :
    Asked run entry pre e.call e.action := by
  obtain ⟨t, rest, hreach, rfl, _, hcall, _⟩ := event_origin h hlog
  exact origin_waiting hreach (waiting_head hcall)

/-- What an event makes true of the shared state stays true as long as the later events keep
it. -/
theorem since (holds : σ → Prop) (h : ((system run init entry).restrict cond).Reachable s)
    {recent older : List (Event σ ι α)} {d : Event σ ι α} (hlog : s.log = recent ++ d :: older)
    (hmade : holds (d.outcome run).state)
    (hkept : ∀ e ∈ recent, holds e.before → holds (e.outcome run).state) : holds s.shared := by
  refine invariant (motive := fun s => ∀ recent, s.log = recent ++ d :: older →
    (∀ e ∈ recent, holds e.before → holds (e.outcome run).state) → holds s.shared)
    h ?_ ?_ ?_ recent hlog hkept
  · intro s _ _ hnil recent hlog
    rw [hnil] at hlog
    exact absurd hlog.symm (by simp)
  · intro s actions _ hinv _ _
    exact hinv
  · intro s i input a rest _ hinv _ _ recent hlog hkept
    cases recent with
    | nil =>
        obtain ⟨rfl, rfl⟩ := List.cons.inj hlog
        exact hmade
    | cons e recent =>
        obtain ⟨rfl, hrest⟩ := List.cons.inj hlog
        have hbefore := hinv recent hrest fun e hmem => hkept e (List.mem_cons_of_mem _ hmem)
        exact hkept ⟨i, s.shared, input, a⟩ List.mem_cons_self hbefore

/-- Some call has run the action, or has it still to run. -/
def Involves (s : Threads σ ι α) (a : α) : Prop :=
  (∃ i, s.Waiting i a) ∨ ∃ e ∈ s.log, e.action = a

/-- An action that a step brings in belongs to a call that begins, or is asked for. -/
theorem involves_next {l : Label ι α} {a : α} (h : (s.next run l).Involves a) :
    s.Involves a ∨ (∃ actions, l = .start actions ∧ a ∈ actions) ∨
      ∃ i input b, l = .step i input ∧ s.Involves b ∧ a ∈ (run input b s.shared).next := by
  cases l with
  | start actions =>
      obtain ⟨i, hwaiting⟩ | hlogged := h
      · obtain ⟨_, hmem⟩ | hold := waiting_start hwaiting
        · exact Or.inr (Or.inl ⟨actions, rfl, hmem⟩)
        · exact Or.inl (Or.inl ⟨i, hold⟩)
      · exact Or.inl (Or.inr hlogged)
  | step j input =>
      match hcall : s.calls[j]? with
      | some (b :: rest) =>
          rw [next_step hcall] at h
          have hself : s.Involves b := Or.inl ⟨j, waiting_head hcall⟩
          obtain ⟨i, hwaiting⟩ | ⟨e, hmem, rfl⟩ := h
          · obtain ⟨_, hnew⟩ | hold := waiting_stepped hcall hwaiting
            · exact Or.inr (Or.inr ⟨j, input, b, rfl, hself, hnew⟩)
            · exact Or.inl (Or.inl ⟨i, hold⟩)
          · obtain rfl | hold := List.mem_cons.mp hmem
            · exact Or.inl hself
            · exact Or.inl (Or.inr ⟨e, hold, rfl⟩)
      | some [] =>
          simp only [next, hcall] at h
          exact Or.inl h
      | none =>
          simp only [next, hcall] at h
          exact Or.inl h

/-- A property of actions that the entry points have, and that every action passes on to those
that it asks for. -/
theorem passed_on {P : α → Prop} (h : ((system run init entry).restrict cond).Reachable s)
    (hentry : ∀ s actions, entry actions → cond s (.start actions) → ∀ a ∈ actions, P a)
    (hnext : ∀ x input a, P a → ∀ b ∈ (run input a x).next, P b) {a : α} (ha : s.Involves a) :
    P a := by
  induction h generalizing a with
  | @init s hinit =>
      obtain ⟨i, call, hcall, _⟩ | ⟨e, hmem, _⟩ := ha
      · rw [hinit.2.1] at hcall
        cases hcall
      · rw [hinit.2.2] at hmem
        exact absurd hmem List.not_mem_nil
  | @step s l _ henabled ih =>
      have hbefore : s.Involves a ∨ (∃ actions, l = .start actions ∧ a ∈ actions) ∨
          ∃ i input b, l = .step i input ∧ s.Involves b ∧ a ∈ (run input b s.shared).next :=
        involves_next ha
      obtain hold | ⟨actions, rfl, hmem⟩ | ⟨i, input, b, rfl, hb, hmem⟩ := hbefore
      · exact ih hold
      · exact hentry s actions henabled.1 henabled.2 a hmem
      · exact hnext s.shared input b (ih hb) a hmem

/-- An action that is involved stands in an entry point, or an event has asked for it. -/
theorem origin (h : ((system run init entry).restrict cond).Reachable s) {a : α}
    (ha : s.Involves a) :
    (∃ actions, entry actions ∧ a ∈ actions) ∨ ∃ e ∈ s.log, a ∈ (e.outcome run).next := by
  obtain ⟨i, hwaiting⟩ | ⟨e, hmem, rfl⟩ := ha
  · obtain hentry | ⟨e, hmem, _, hnext⟩ := origin_waiting h hwaiting
    · exact Or.inl hentry
    · exact Or.inr ⟨e, hmem, hnext⟩
  · obtain ⟨post, pre, hlog⟩ := List.append_of_mem hmem
    obtain hentry | ⟨asker, hasker, _, hnext⟩ := origin_logged h hlog
    · exact Or.inl hentry
    · refine Or.inr ⟨asker, ?_, hnext⟩
      rw [hlog]
      exact List.mem_append_right _ (List.mem_cons_of_mem _ hasker)

/-- The log only grows. -/
theorem mem_log_next {e : Event σ ι α} (he : e ∈ s.log) (l : Label ι α) :
    e ∈ (s.next run l).log := by
  cases l with
  | start actions => exact he
  | step i input =>
      simp only [next]
      split
      · exact List.mem_cons_of_mem _ he
      · exact he

/-- An action that was asked for has been run by its call, or is still to be run. -/
theorem run_or_waiting (h : ((system run init entry).restrict cond).Reachable s)
    {e : Event σ ι α} (he : e ∈ s.log) {b : α} (hb : b ∈ (e.outcome run).next) :
    (∃ e' ∈ s.log, e'.call = e.call ∧ e'.action = b) ∨ s.Waiting e.call b := by
  refine invariant (motive := fun s => ∀ e ∈ s.log, ∀ b ∈ (e.outcome run).next,
    (∃ e' ∈ s.log, e'.call = e.call ∧ e'.action = b) ∨ s.Waiting e.call b) h ?_ ?_ ?_ e he b hb
  · intro s _ _ hlog e he
    rw [hlog] at he
    exact absurd he List.not_mem_nil
  · intro s actions _ hinv _ _ e he b hb
    obtain hrun | hwaiting := hinv e he b hb
    · exact Or.inl hrun
    · exact Or.inr (hwaiting.start actions)
  · intro s i input a rest _ hinv hcall _ e he b hb
    obtain rfl | hold := List.mem_cons.mp he
    · exact Or.inr (waiting_next hcall hb)
    · obtain ⟨e', he', hrest⟩ | hwaiting := hinv e hold b hb
      · exact Or.inl ⟨e', List.mem_cons_of_mem _ he', hrest⟩
      · obtain ⟨hi, rfl⟩ | hstill := hwaiting.stepped hcall run input
        · exact Or.inl ⟨_, List.mem_cons_self, hi.symm, rfl⟩
        · exact Or.inr hstill

/-! ### Runs without interruption -/

/-- The actions of a call, run one after the other under one input. -/
inductive Alone (run : ι → α → σ → Outcome σ α ε) (input : ι) :
    List α → σ → σ → List ε → Prop where
  | nil (x : σ) : Alone run input [] x x []
  | cons {a : α} {rest : List α} {x y : σ} {effects : List ε} :
      Alone run input ((run input a x).next ++ rest) (run input a x).state y effects →
      Alone run input (a :: rest) x y ((run input a x).effects ++ effects)

namespace Alone

variable {input : ι} {actions more : List α} {x y z : σ} {effects others : List ε}

theorem append (h : Alone run input actions x y effects)
    (hmore : Alone run input more y z others) :
    Alone run input (actions ++ more) x z (effects ++ others) := by
  induction h with
  | nil x => exact hmore
  | @cons a rest x y effects _ ih =>
      rw [List.append_assoc, List.cons_append]
      refine Alone.cons ?_
      rw [← List.append_assoc]
      exact ih hmore

theorem single {a : α} (h : Alone run input (run input a x).next (run input a x).state y effects) :
    Alone run input [a] x y ((run input a x).effects ++ effects) := by
  refine Alone.cons ?_
  rw [List.append_nil]
  exact h

/-- An action that asks for nothing. -/
theorem last {a : α} (h : (run input a x).next = []) :
    Alone run input [a] x (run input a x).state (run input a x).effects := by
  have hnil : Alone run input (run input a x).next (run input a x).state (run input a x).state [] :=
    by rw [h]; exact Alone.nil _
  have hsingle := single hnil
  rwa [List.append_nil] at hsingle

end Alone

/-- The effects of the actions in a log, in the order in which they happened. -/
def effects (run : ι → α → σ → Outcome σ α ε) (log : List (Event σ ι α)) : List ε :=
  log.reverse.flatMap fun e => (e.outcome run).effects

/-- An uninterrupted run of a call is one of the interleavings. -/
theorem Alone.steps {input : ι} {actions : List α} {x y : σ} {es : List ε}
    (h : Alone run input actions x y es) {s : Threads σ ι α} {i : Nat}
    (hcall : s.calls[i]? = some actions) (hshared : s.shared = x) :
    ∃ n, (system run init entry).Admits s (List.replicate n (.step i input)) ∧
      ∃ t, (system run init entry).exec s (List.replicate n (.step i input)) = t ∧
        t.shared = y ∧ t.calls = s.calls.set i [] ∧
        effects run t.log = effects run s.log ++ es := by
  induction h generalizing s with
  | nil x =>
      obtain ⟨hlt, hget⟩ := List.getElem?_eq_some_iff.mp hcall
      refine ⟨0, trivial, s, rfl, hshared, ?_, (List.append_nil _).symm⟩
      rw [← hget, List.set_getElem_self]
  | @cons a rest x y es _ ih =>
      subst hshared
      have hcall' : (s.stepped run i input a rest).calls[i]? =
          some ((run input a s.shared).next ++ rest) := stepped_calls_self hcall
      obtain ⟨n, hadmits, t, hexec, hy, hcalls, heffects⟩ := ih hcall' rfl
      have hnext : (system run init entry).next s (.step i input) = s.stepped run i input a rest :=
        next_step hcall
      rw [← hnext] at hadmits hexec
      refine ⟨n + 1, ⟨⟨a, rest, hcall⟩, hadmits⟩, t, hexec, hy, ?_, ?_⟩
      · rw [hcalls]
        exact List.set_set _
      · rw [heffects]
        simp [effects, stepped, Event.outcome]

/-- A call that begins when no call is in progress, and returns, leaves no call in progress. -/
theorem idle_of_returned {t : Threads σ ι α} {actions : List α}
    (hidle : ∀ i a, ¬ s.Waiting i a)
    (hcalls : t.calls = (s.calls ++ [actions]).set s.calls.length []) (i : Nat) (a : α) :
    ¬ t.Waiting i a := by
  rintro ⟨call, hcall, hmem⟩
  rw [hcalls] at hcall
  obtain hlt | hge := Nat.lt_or_ge i s.calls.length
  · rw [List.getElem?_set_ne (Nat.ne_of_gt hlt), List.getElem?_append_left hlt] at hcall
    exact hidle i a ⟨call, hcall, hmem⟩
  · obtain rfl : i = s.calls.length := by
      have hlt := (List.getElem?_eq_some_iff.mp hcall).1
      rw [List.length_set, List.length_append, List.length_singleton] at hlt
      omega
    rw [List.getElem?_set_self (by simp)] at hcall
    obtain rfl := Option.some.inj hcall
    exact absurd hmem List.not_mem_nil

/-! ### Accounts -/

/-- What the calls in progress owe, when each action owes `w`. -/
def owed (w : α → Nat) (s : Threads σ ι α) : Nat :=
  (s.calls.map fun call => (call.map w).sum).sum

/-- What was paid out by the actions that were run. -/
def paid (d : Event σ ι α → Nat) (s : Threads σ ι α) : Nat := (s.log.map d).sum

/-- Holdings, debts and payments. -/
def account (held : σ → Nat) (w : α → Nat) (d : Event σ ι α → Nat) (s : Threads σ ι α) : Nat :=
  held s.shared + owed w s + paid d s

variable {held : σ → Nat} {w : α → Nat} {d : Event σ ι α → Nat}

theorem sum_eq_zero_of_mem {actions : List α} (h : ∀ a ∈ actions, w a = 0) :
    (actions.map w).sum = 0 := by
  apply List.sum_eq_zero
  intro n hn
  obtain ⟨a, ha, rfl⟩ := List.mem_map.mp hn
  exact h a ha

theorem owed_eq_zero (h : ∀ i a, s.Waiting i a → w a = 0) : owed w s = 0 := by
  refine sum_eq_zero_of_mem (w := fun call : List α => (call.map w).sum) fun call hcall => ?_
  obtain ⟨i, hi⟩ := List.mem_iff_getElem?.mp hcall
  exact sum_eq_zero_of_mem fun a ha => h i a ⟨call, hi, ha⟩

theorem owed_start (actions : List α) :
    owed w { s with calls := s.calls ++ [actions] } = owed w s + (actions.map w).sum := by
  simp [owed]

theorem account_start (actions : List α) :
    account held w d { s with calls := s.calls ++ [actions] } =
      account held w d s + (actions.map w).sum := by
  simp only [account, owed_start, paid]
  omega

theorem owed_stepped (run : ι → α → σ → Outcome σ α ε) (w : α → Nat) (input : ι) {i : Nat} {a : α}
    {rest : List α} (hcall : s.calls[i]? = some (a :: rest)) :
    owed w (s.stepped run i input a rest) + w a =
      owed w s + ((run input a s.shared).next.map w).sum := by
  obtain ⟨hlt, hget⟩ := List.getElem?_eq_some_iff.mp hcall
  have hset := List.set_eq_take_append_cons_drop (l := s.calls) (i := i)
    (a := (run input a s.shared).next ++ rest)
  rw [if_pos hlt] at hset
  have hsplit : s.calls = s.calls.take i ++ (a :: rest) :: s.calls.drop (i + 1) := by
    rw [← hget, List.getElem_cons_drop, List.take_append_drop]
  have hbefore : owed w s = (((s.calls.take i ++ (a :: rest) :: s.calls.drop (i + 1)).map
      fun call => (call.map w).sum)).sum := by
    rw [← hsplit]
    rfl
  simp only [owed, stepped] at *
  rw [hset, hbefore]
  simp only [List.map_append, List.map_cons, List.sum_append, List.sum_cons]
  omega

/-- An action that does not make its part of the account grow leaves no larger account. -/
theorem account_stepped {i : Nat} {input : ι} {a : α} {rest : List α}
    (hcall : s.calls[i]? = some (a :: rest))
    (hlaw : held (run input a s.shared).state + ((run input a s.shared).next.map w).sum +
      d ⟨i, s.shared, input, a⟩ ≤ held s.shared + w a) :
    account held w d (s.stepped run i input a rest) ≤ account held w d s := by
  have howed : owed w (s.stepped run i input a rest) + w a =
      owed w s + ((run input a s.shared).next.map w).sum := owed_stepped run w input hcall
  simp only [account, paid, stepped, List.map_cons, List.sum_cons] at howed ⊢
  omega

/-- An action that leaves its part of the account as it is leaves the account as it is. -/
theorem account_stepped_eq {i : Nat} {input : ι} {a : α} {rest : List α}
    (hcall : s.calls[i]? = some (a :: rest))
    (hlaw : held (run input a s.shared).state + ((run input a s.shared).next.map w).sum +
      d ⟨i, s.shared, input, a⟩ = held s.shared + w a) :
    account held w d (s.stepped run i input a rest) = account held w d s := by
  have howed : owed w (s.stepped run i input a rest) + w a =
      owed w s + ((run input a s.shared).next.map w).sum := owed_stepped run w input hcall
  simp only [account, paid, stepped, List.map_cons, List.sum_cons] at howed ⊢
  omega

theorem Waiting.le_owed {i : Nat} {a : α} (h : s.Waiting i a) : w a ≤ owed w s := by
  obtain ⟨call, hcall, hmem⟩ := h
  calc w a ≤ (call.map w).sum := List.le_sum_of_mem (List.mem_map_of_mem hmem)
    _ ≤ owed w s := List.le_sum_of_mem
        (List.mem_map_of_mem (f := fun call => (call.map w).sum) (List.mem_of_getElem? hcall))

end Threads
