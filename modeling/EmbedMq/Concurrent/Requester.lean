import EmbedMq.Concurrent.Steps

/-!
# Requesters

A `Requester` draws a correlation id from the counter of the bus and keeps it in a
member, `lastCorrId`. The member is read once for `sendRequest` and, when the wait for
the reply has timed out, once more for `cancelPendingRequest`. Two threads that use one
`Requester` share the member: what a thread reads may be the id of the other.

As long as a thread reads the member only while it holds what the thread itself has
stored, the requests of a bus do not interfere: no id is used by two calls, and no call
cancels the request of another.
-/

namespace EmbedMq

open MessageBus (Call)

/-- `Requester::Impl`. -/
structure Requester where
  service : Bytes
  qos : QoSProfile
  lastCorrId : UInt32 := 0

/-- A bus with the requesters that use it. Of the counter, the low half is drawn. -/
structure RequesterBus where
  bus : MessageBus
  corrCounter : Nat := 1
  requesters : Nat → Requester

/-- The surroundings of an action, and whether a future is ready in time. -/
structure RequesterEnv where
  env : Env
  ready : Bool

inductive RequesterAction where
  /-- `corrCounter_++`. `request` passes its timeout on and waits, `requestAsync` does not. -/
  | draw (r : Nat) (payload : Bytes) (timeout : Option Int)
  /-- `lastCorrId = ...`. -/
  | store (r : Nat) (corrId : UInt32) (payload : Bytes) (timeout : Option Int)
  /-- Read `lastCorrId` and call `sendRequest`. -/
  | send (r : Nat) (payload : Bytes) (timeout : Option Int)
  /-- `fut.wait_for(timeout)`. -/
  | wait (r : Nat)
  /-- `lastCorrId != 0`. -/
  | check (r : Nat)
  /-- Read `lastCorrId` and call `cancelPendingRequest`. -/
  | cancel (r : Nat)
  /-- An action of the bus. -/
  | bus (a : Action)

namespace RequesterAction

def run (input : RequesterEnv) : RequesterAction → RequesterBus →
    Outcome RequesterBus RequesterAction Effect
  | draw r payload timeout, s =>
      { state := { s with corrCounter := s.corrCounter + 1 }
        next := [.store r (UInt32.ofNat s.corrCounter) payload timeout] }
  | store r corrId payload timeout, s =>
      let updated := { s.requesters r with lastCorrId := corrId }
      { state := { s with requesters := Function.update s.requesters r updated }
        next := [.send r payload timeout] }
  | send r payload timeout, s =>
      let impl := s.requesters r
      let call := Action.sendRequest impl.service payload impl.qos impl.lastCorrId
        (timeout.getD 0)
      { state := s, next := .bus call :: if timeout.isSome then [.wait r] else [] }
  | wait r, s => { state := s, next := if input.ready then [] else [.check r] }
  | check r, s =>
      { state := s, next := if (s.requesters r).lastCorrId ≠ 0 then [.cancel r] else [] }
  | cancel r, s =>
      { state := s, next := [.bus (.cancelPendingRequest (s.requesters r).lastCorrId)] }
  | bus a, s =>
      let outcome := Action.run input.env a s.bus
      { state := { s with bus := outcome.state }, effects := outcome.effects
        next := outcome.next.map .bus }

end RequesterAction

/-- Any number of calls in progress on the requesters and the bus. -/
abbrev RequesterThreads := Threads RequesterBus RequesterEnv RequesterAction

abbrev RequesterEvent := Event RequesterBus RequesterEnv RequesterAction

namespace RequesterThreads

open RequesterAction (run)

/-- Nothing has happened yet. -/
def Initial (s : RequesterBus) : Prop :=
  BusThreads.Initial s.bus ∧ s.corrCounter = 1 ∧ ∀ r, (s.requesters r).lastCorrId = 0

/-- A call of `request` or `requestAsync`, or an entry point of the bus that is not for
requesters alone. -/
inductive Entry : List RequesterAction → Prop
  | request (r : Nat) (payload : Bytes) (timeout : Int) : Entry [.draw r payload (some timeout)]
  | requestAsync (r : Nat) (payload : Bytes) : Entry [.draw r payload none]
  | bus (call : Call)
      (hsend : ∀ service payload qos corrId timeout,
        call ≠ .sendRequest service payload qos corrId timeout)
      (hcancel : ∀ corrId, call ≠ .cancelPendingRequest corrId) :
      Entry [.bus (Action.ofCall call)]

def system : TransitionSystem RequesterThreads (Threads.Label RequesterEnv RequesterAction) :=
  Threads.system run Initial Entry

/-! ### Ids and the calls that use them -/

/-- The action makes a request under this id, or registers it. -/
def uses (corrId : UInt32) : RequesterAction → Bool
  | .bus (.sendRequest _ _ _ c _) => decide (c = corrId)
  | .bus (.addRequest _ _ _ c _) => decide (c = corrId)
  | _ => false

/-- The action cancels the request under this id. -/
def cancels (corrId : UInt32) : RequesterAction → Bool
  | .bus (.cancelPendingRequest c) => decide (c = corrId)
  | _ => false

/-- Calls do not interfere: an id is used by one call only, and a call cancels no request of
another. -/
def Separate (s : RequesterThreads) : Prop :=
  ∀ corrId, ∀ user ∈ s.log, uses corrId user.action = true → ∀ other ∈ s.log,
    (uses corrId other.action || cancels corrId other.action) = true → other.call = user.call

/-- The action writes the member of a requester. -/
def stores (r : Nat) : RequesterAction → Bool
  | .store r' _ _ _ => decide (r' = r)
  | _ => false

/-- The action reads the member of a requester, to pass it on. -/
def reads (r : Nat) : RequesterAction → Bool
  | .send r' _ _ => decide (r' = r)
  | .cancel r' => decide (r' = r)
  | _ => false

/-- The last call that has written the member of a requester. -/
def lastWriter (r : Nat) (log : List RequesterEvent) : Option Nat :=
  (log.find? fun e => stores r e.action).map Event.call

def draws : RequesterAction → Bool
  | .draw _ _ _ => true
  | _ => false

/-- A call reads what it has written itself, and the counter has not come round. -/
def Undisturbed (s : RequesterThreads) : Threads.Label RequesterEnv RequesterAction → Prop
  | .start _ => True
  | .step i _ => ∀ a rest, s.calls[i]? = some (a :: rest) →
      (∀ r, reads r a = true → lastWriter r s.log = some i) ∧
      (draws a = true → s.shared.corrCounter ≤ 2 ^ 32)

/-- The call has drawn this id. -/
def Drawn (log : List RequesterEvent) (i : Nat) (corrId : UInt32) : Prop :=
  ∃ e ∈ log, e.call = i ∧ draws e.action = true ∧ UInt32.ofNat e.before.corrCounter = corrId

theorem Drawn.cons {log : List RequesterEvent} {i : Nat} {corrId : UInt32}
    (h : Drawn log i corrId) (e : RequesterEvent) : Drawn (e :: log) i corrId := by
  obtain ⟨e', hmem, hrest⟩ := h
  exact ⟨e', List.mem_cons_of_mem _ hmem, hrest⟩

/-- The id that an action carries. -/
def carried : RequesterAction → Option UInt32
  | .store _ c _ _ => some c
  | .bus (.sendRequest _ _ _ c _) => some c
  | .bus (.addRequest _ _ _ c _) => some c
  | .bus (.cancelPendingRequest c) => some c
  | _ => none

/-- What a call carries it has drawn, and the member of a requester is what was written last. -/
structure Owned (s : RequesterThreads) : Prop where
  number : ∀ e ∈ s.log, draws e.action = true →
    0 < e.before.corrCounter ∧ e.before.corrCounter < s.shared.corrCounter ∧
      e.before.corrCounter ≤ 2 ^ 32
  drawn : ∀ e₁ ∈ s.log, ∀ e₂ ∈ s.log, draws e₁.action = true → draws e₂.action = true →
    e₁.before.corrCounter = e₂.before.corrCounter → e₁.call = e₂.call
  positive : 0 < s.shared.corrCounter
  written : ∀ r e, s.log.find? (fun e => stores r e.action) = some e →
    carried e.action = some (s.shared.requesters r).lastCorrId
  waiting : ∀ i a, s.Waiting i a → ∀ corrId, carried a = some corrId → Drawn s.log i corrId
  logged : ∀ e ∈ s.log, ∀ corrId, carried e.action = some corrId → Drawn s.log e.call corrId

theorem corrCounter_le (input : RequesterEnv) (a : RequesterAction) (s : RequesterBus) :
    s.corrCounter ≤ (run input a s).state.corrCounter := by
  cases a with
  | draw r payload timeout => exact Nat.le_succ _
  | _ => exact Nat.le_refl _

theorem lastCorrId_run {r : Nat} {a : RequesterAction} (h : stores r a = false)
    (input : RequesterEnv) (s : RequesterBus) :
    ((run input a s).state.requesters r).lastCorrId = (s.requesters r).lastCorrId := by
  cases a with
  | store r' c payload timeout =>
      have hne : r ≠ r' := fun heq => of_decide_eq_false h heq.symm
      simp only [run, Function.update_of_ne hne]
  | _ => rfl

theorem stores_of_eq_true {r : Nat} {a : RequesterAction} (h : stores r a = true) :
    ∃ corrId payload timeout, a = .store r corrId payload timeout := by
  cases a with
  | store r' corrId payload timeout =>
      obtain rfl := of_decide_eq_true h
      exact ⟨corrId, payload, timeout, rfl⟩
  | _ => exact absurd h Bool.false_ne_true

/-- Up to `2 ^ 32`, different numbers give different ids. -/
theorem ofNat_inj {m n : Nat} (hm : 0 < m) (hn : 0 < n) (hm' : m ≤ 2 ^ 32) (hn' : n ≤ 2 ^ 32)
    (h : UInt32.ofNat m = UInt32.ofNat n) : m = n := by
  have hnat := congrArg UInt32.toNat h
  rw [UInt32.toNat_ofNat', UInt32.toNat_ofNat'] at hnat
  omega

section Step

variable {s : RequesterThreads} {i : Nat} {input : RequesterEnv} {a : RequesterAction}
  {rest : List RequesterAction} (hcall : s.calls[i]? = some (a :: rest))
include hcall

/-- An id is carried on from a draw, from the member, or from the request itself. -/
theorem carried_next (howned : Owned s) (hcond : Undisturbed s (.step i input))
    {b : RequesterAction} (hb : b ∈ (run input a s.shared).next) {corrId : UInt32}
    (hcarried : carried b = some corrId) :
    Drawn (⟨i, s.shared, input, a⟩ :: s.log) i corrId := by
  obtain ⟨hreads, _⟩ := hcond a rest hcall
  -- The member holds what this call has written.
  have hmember : ∀ r, reads r a = true → Drawn s.log i (s.shared.requesters r).lastCorrId := by
    intro r hr
    obtain ⟨e, hfind, hwriter⟩ := Option.map_eq_some_iff.mp (hreads r hr)
    have hdrawn := howned.logged e (List.mem_of_find?_eq_some hfind) _ (howned.written r e hfind)
    rwa [hwriter] at hdrawn
  cases a with
  | draw r payload timeout =>
      obtain rfl := List.mem_singleton.mp hb
      obtain rfl := Option.some.inj hcarried
      exact ⟨_, List.mem_cons_self, rfl, rfl, rfl⟩
  | store r c payload timeout =>
      obtain rfl := List.mem_singleton.mp hb
      cases hcarried
  | send r payload timeout =>
      obtain rfl | hb := List.mem_cons.mp hb
      · obtain rfl := Option.some.inj hcarried
        exact (hmember r (decide_eq_true rfl)).cons _
      · split at hb
        · obtain rfl := List.mem_singleton.mp hb
          cases hcarried
        · exact absurd hb List.not_mem_nil
  | wait r =>
      simp only [run] at hb
      split at hb
      · exact absurd hb List.not_mem_nil
      · obtain rfl := List.mem_singleton.mp hb
        cases hcarried
  | check r =>
      simp only [run] at hb
      split at hb
      · obtain rfl := List.mem_singleton.mp hb
        cases hcarried
      · exact absurd hb List.not_mem_nil
  | cancel r =>
      obtain rfl := List.mem_singleton.mp hb
      obtain rfl := Option.some.inj hcarried
      exact (hmember r (decide_eq_true rfl)).cons _
  | bus act =>
      obtain ⟨next, hnext, rfl⟩ := List.mem_map.mp hb
      cases Action.asks_of_mem hnext with
      | unhandled service payload qos c timeout =>
          obtain rfl := Option.some.inj hcarried
          exact (howned.waiting i _ (Threads.waiting_head hcall) _ rfl).cons _
      | receive _ _ _ hreceives =>
          cases hreceives with
          | dispatches hdispatches => cases hdispatches <;> cases hcarried
          | _ => cases hcarried
      | isDuplicate _ _ hdispatches => cases hdispatches <;> cases hcarried
      | _ => cases hcarried

theorem owned_stepped (howned : Owned s) (hcond : Undisturbed s (.step i input)) :
    Owned (s.stepped run i input a rest) where
  number := by
    intro e hmem hdraws
    have hgrows := corrCounter_le input a s.shared
    change 0 < _ ∧ _ < (run input a s.shared).state.corrCounter ∧ _
    obtain rfl | hold := List.mem_cons.mp hmem
    · have hroom := (hcond a rest hcall).2 hdraws
      refine ⟨howned.positive, ?_, hroom⟩
      cases a with
      | draw r payload timeout => exact Nat.lt_succ_self _
      | _ => exact absurd hdraws Bool.false_ne_true
    · obtain ⟨hpos, hlt, hle⟩ := howned.number e hold hdraws
      exact ⟨hpos, by omega, hle⟩
  drawn := by
    intro e₁ hmem₁ e₂ hmem₂ hdraws₁ hdraws₂ hsame
    obtain rfl | hold₁ := List.mem_cons.mp hmem₁
    · obtain rfl | hold₂ := List.mem_cons.mp hmem₂
      · rfl
      · have hlt := (howned.number e₂ hold₂ hdraws₂).2.1
        simp only at hsame
        omega
    · obtain rfl | hold₂ := List.mem_cons.mp hmem₂
      · have hlt := (howned.number e₁ hold₁ hdraws₁).2.1
        simp only at hsame
        omega
      · exact howned.drawn e₁ hold₁ e₂ hold₂ hdraws₁ hdraws₂ hsame
  positive := Nat.lt_of_lt_of_le howned.positive (corrCounter_le input a s.shared)
  written := by
    intro r e hfind
    change carried e.action = some ((run input a s.shared).state.requesters r).lastCorrId
    change (⟨i, s.shared, input, a⟩ :: s.log : List RequesterEvent).find? _ = some e at hfind
    rw [List.find?_cons] at hfind
    cases hstores : stores r a with
    | true =>
        obtain ⟨corrId, payload, timeout, rfl⟩ := stores_of_eq_true hstores
        rw [hstores] at hfind
        obtain rfl := Option.some.inj hfind
        simp [run, carried]
    | false =>
        rw [hstores] at hfind
        rw [lastCorrId_run hstores]
        exact howned.written r e hfind
  waiting := by
    intro j b hwaiting corrId hcarried
    obtain ⟨rfl, hnew⟩ | hold := Threads.waiting_stepped hcall hwaiting
    · exact carried_next hcall howned hcond hnew hcarried
    · exact (howned.waiting j b hold corrId hcarried).cons _
  logged := by
    intro e hmem corrId hcarried
    obtain rfl | hold := List.mem_cons.mp hmem
    · exact (howned.waiting i a (Threads.waiting_head hcall) corrId hcarried).cons _
    · exact (howned.logged e hold corrId hcarried).cons _

end Step

/-! ### Runs -/

theorem carried_entry {actions : List RequesterAction} (h : Entry actions) {a : RequesterAction}
    (ha : a ∈ actions) : carried a = none := by
  cases h with
  | request r payload timeout =>
      obtain rfl := List.mem_singleton.mp ha
      rfl
  | requestAsync r payload =>
      obtain rfl := List.mem_singleton.mp ha
      rfl
  | bus call hsend hcancel =>
      obtain rfl := List.mem_singleton.mp ha
      cases call with
      | sendRequest service payload qos corrId timeout => exact absurd rfl (hsend _ _ _ _ _)
      | cancelPendingRequest corrId => exact absurd rfl (hcancel _)
      | _ => rfl

theorem owned {s : RequesterThreads} (h : (system.restrict Undisturbed).Reachable s) : Owned s := by
  refine Threads.invariant (motive := Owned) h ?_ ?_ ?_
  · intro s hinit hcalls hlog
    have hnot : ∀ e, e ∉ s.log := by
      rw [hlog]
      exact fun _ => List.not_mem_nil
    refine ⟨fun e hmem => absurd hmem (hnot e), fun e hmem => absurd hmem (hnot e), ?_, ?_, ?_,
      fun e hmem => absurd hmem (hnot e)⟩
    · rw [hinit.2.1]
      exact Nat.one_pos
    · intro r e hfind
      exact absurd (List.mem_of_find?_eq_some hfind) (hnot e)
    · rintro i a ⟨call, hcall, _⟩
      rw [hcalls] at hcall
      cases hcall
  · intro s actions _ hinv hentry _
    refine ⟨hinv.number, hinv.drawn, hinv.positive, hinv.written, ?_, hinv.logged⟩
    intro i a hwaiting corrId hcarried
    obtain ⟨_, hnew⟩ | hold := Threads.waiting_start hwaiting
    · rw [carried_entry hentry hnew] at hcarried
      cases hcarried
    · exact hinv.waiting i a hold corrId hcarried
  · intro s i input a rest _ hinv hcall hcond
    exact owned_stepped hcall hinv hcond

theorem carried_of_uses {corrId : UInt32} {a : RequesterAction} (h : uses corrId a = true) :
    carried a = some corrId := by
  cases a with
  | bus act =>
      cases act with
      | sendRequest _ _ _ c _ => exact congrArg some (of_decide_eq_true h)
      | addRequest _ _ _ c _ => exact congrArg some (of_decide_eq_true h)
      | _ => exact absurd h Bool.false_ne_true
  | _ => exact absurd h Bool.false_ne_true

theorem carried_of_cancels {corrId : UInt32} {a : RequesterAction} (h : cancels corrId a = true) :
    carried a = some corrId := by
  cases a with
  | bus act =>
      cases act with
      | cancelPendingRequest c => exact congrArg some (of_decide_eq_true h)
      | _ => exact absurd h Bool.false_ne_true
  | _ => exact absurd h Bool.false_ne_true

/-- If every call reads the member of its requester only while it holds what the call has
written, no id is used by two calls and no call cancels the request of another. -/
theorem requests_separate {s : RequesterThreads}
    (h : (system.restrict Undisturbed).Reachable s) : Separate s := by
  have howned := owned h
  intro corrId user huser huses other hother hothers
  have hcarried : carried other.action = some corrId := by
    obtain huses | hcancels := Bool.or_eq_true_iff.mp hothers
    · exact carried_of_uses huses
    · exact carried_of_cancels hcancels
  obtain ⟨d₁, hd₁, hcall₁, hdraws₁, hid₁⟩ :=
    howned.logged user huser corrId (carried_of_uses huses)
  obtain ⟨d₂, hd₂, hcall₂, hdraws₂, hid₂⟩ := howned.logged other hother corrId hcarried
  obtain ⟨hpos₁, _, hle₁⟩ := howned.number d₁ hd₁ hdraws₁
  obtain ⟨hpos₂, _, hle₂⟩ := howned.number d₂ hd₂ hdraws₂
  have hsame := ofNat_inj hpos₂ hpos₁ hle₂ hle₁ (hid₂.trans hid₁.symm)
  rw [← hcall₁, ← hcall₂]
  exact howned.drawn d₂ hd₂ d₁ hd₁ hdraws₂ hdraws₁ hsame

/-! ### Two callers of one requester -/

/-- The bus of a node with one kind of requester. -/
def freshBus : RequesterBus where
  bus := BusThreads.fresh
  requesters _ := { service := [0x73], qos := {} }

theorem initial_freshBus : Initial freshBus := ⟨rfl, rfl, fun _ => rfl⟩

/-- Nobody answers in time. -/
def unanswered : RequesterEnv := ⟨BusThreads.clock 0, false⟩

/-- A call of `request` on the first requester. -/
def asks : Threads.Label RequesterEnv RequesterAction := .start [.draw 0 [] (some 1000)]

def goes (n i : Nat) : List (Threads.Label RequesterEnv RequesterAction) :=
  List.replicate n (.step i unanswered)

def afterLabels (labels : List (Threads.Label RequesterEnv RequesterAction)) : RequesterThreads :=
  labels.foldl (Threads.next run) ⟨freshBus, [], []⟩

/-- Only calls of `request` begin. -/
def begins : Threads.Label RequesterEnv RequesterAction → Bool
  | .start [.draw _ _ (some _)] => true
  | .start _ => false
  | .step _ _ => true

theorem entry_of_begins {actions : List RequesterAction} (h : begins (.start actions) = true) :
    Entry actions := by
  unfold begins at h
  split at h
  · rename_i r payload timeout heq
    rw [Threads.Label.start.inj heq]
    exact .request r payload timeout
  · exact absurd h Bool.false_ne_true
  · rename_i heq
    cases heq

theorem afterLabels_reachable {labels : List (Threads.Label RequesterEnv RequesterAction)}
    {cond : RequesterThreads → Threads.Label RequesterEnv RequesterAction → Prop}
    (hruns : Threads.Runs run ⟨freshBus, [], []⟩ labels = true) (hbegins : labels.all begins = true)
    (halong : Threads.Along run cond ⟨freshBus, [], []⟩ labels) :
    (system.restrict cond).Reachable (afterLabels labels) := by
  refine Threads.reachable_of_runs (.init ⟨initial_freshBus, rfl, rfl⟩) hruns ?_ halong
  intro actions hmem
  exact entry_of_begins (List.all_eq_true.mp hbegins _ hmem)

/-- The condition, as a check of the next action. -/
def undisturbedCheck (s : RequesterThreads) : Threads.Label RequesterEnv RequesterAction → Bool
  | .start _ => true
  | .step i _ =>
      match s.calls[i]? with
      | some (a :: _) =>
          (match a with
            | .send r _ _ => lastWriter r s.log == some i
            | .cancel r => lastWriter r s.log == some i
            | _ => true) && decide (s.shared.corrCounter ≤ 2 ^ 32)
      | _ => true

theorem undisturbed_of_check (s : RequesterThreads)
    (l : Threads.Label RequesterEnv RequesterAction) (h : undisturbedCheck s l = true) :
    Undisturbed s l := by
  cases l with
  | start actions => trivial
  | step i input =>
      intro a rest hcall
      simp only [undisturbedCheck, hcall, Bool.and_eq_true, decide_eq_true_eq] at h
      refine ⟨fun r hr => ?_, fun _ => h.2⟩
      cases a with
      | send r' payload timeout =>
          obtain rfl := of_decide_eq_true hr
          exact eq_of_beq h.1
      | cancel r' =>
          obtain rfl := of_decide_eq_true hr
          exact eq_of_beq h.1
      | _ => exact absurd hr Bool.false_ne_true

/-- Both callers draw and store an id before either of them reads the member. The first
one gives up. -/
def overlapping : List (Threads.Label RequesterEnv RequesterAction) :=
  [[asks, asks], goes 2 0, goes 2 1, goes 3 0, goes 3 1, goes 6 0].flatten

/-- The second caller comes when the first one has given up. -/
def oneByOne : List (Threads.Label RequesterEnv RequesterAction) :=
  [[asks], goes 11 0, [asks], goes 11 1].flatten

/-- An event of a call that uses an id, or cancels it. -/
def involves (i : Nat) (corrId : UInt32) (e : RequesterEvent) : Bool :=
  decide (e.call = i) && (uses corrId e.action || cancels corrId e.action)

theorem requests_separate_oneByOne : Separate (afterLabels oneByOne) ∧
    (afterLabels oneByOne).log.countP (involves 0 1) = 3 ∧
    (afterLabels oneByOne).log.countP (involves 1 2) = 3 :=
  ⟨requests_separate (afterLabels_reachable (by decide +kernel) (by decide +kernel)
    (Threads.along_of_checks undisturbed_of_check (by decide +kernel))),
    by decide +kernel, by decide +kernel⟩

/-- Two calls of `request` on one requester register under the same id, and one of them
cancels the request of the other. -/
theorem requests_interfere : ¬ ∀ s, system.Reachable s → Separate s := by
  intro hclaim
  have hreach : (system.restrict fun _ _ => True).Reachable (afterLabels overlapping) :=
    afterLabels_reachable (by decide +kernel) (by decide +kernel) (Threads.along_true _)
  have hseparate := hclaim _ hreach.of_restrict
  have huser : (afterLabels overlapping).log.any
      (fun e => decide (e.call = 1) && uses 2 e.action) = true := by decide +kernel
  have hother : (afterLabels overlapping).log.any
      (fun e => decide (e.call = 0) && cancels 2 e.action) = true := by decide +kernel
  obtain ⟨user, hmem, huses⟩ := List.any_eq_true.mp huser
  obtain ⟨other, hmem', hcancels⟩ := List.any_eq_true.mp hother
  obtain ⟨hone, huses⟩ := Bool.and_eq_true_iff.mp huses
  obtain ⟨hzero, hcancels⟩ := Bool.and_eq_true_iff.mp hcancels
  have hsame := hseparate 2 user hmem huses other hmem' (by rw [hcancels, Bool.or_true])
  rw [of_decide_eq_true hone, of_decide_eq_true hzero] at hsame
  exact absurd hsame Nat.zero_ne_one

end RequesterThreads

end EmbedMq
