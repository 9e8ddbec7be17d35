import EmbedMq.Concurrent.Steps

/-!
# The fate of a request

A request has a promise. The promise is with the thread that makes the request, then
in `pendingRequests` under the correlation id, then with the thread that took it out
and is about to fulfil it. Every action keeps the number of promises with a given
correlation id, if those that were fulfilled or destroyed are counted too. So no
interleaving fulfils a promise twice or loses one.
-/

namespace EmbedMq

open MessageBus (Call RetryJob)
open MessageCodec (DecodeResult)

namespace Action

/-- The correlation id of the request that an action is for. -/
def correlation : Action → Option UInt32
  | sendRequest _ _ _ corrId _ => some corrId
  | runLocal _ _ corrId _ => some corrId
  | addRequest _ _ _ corrId _ => some corrId
  | dispatchRequest _ _ _ corrId => some corrId
  | checkProvider _ corrId _ => some corrId
  | takeUnprovided _ corrId => some corrId
  | retryRequest job => some job.corrId
  | takeReplied corrId _ => some corrId
  | cancelPendingRequest corrId => some corrId
  | settle corrId _ => some corrId
  | _ => none

/-- The promises that a thread has in its hands before an action. -/
def promises (corrId : UInt32) : Action → Nat
  | sendRequest _ _ _ c _ => if c = corrId then 1 else 0
  | runLocal _ _ c _ => if c = corrId then 1 else 0
  | addRequest _ _ _ c _ => if c = corrId then 1 else 0
  | settle c _ => if c = corrId then 1 else 0
  | _ => 0

end Action

/-- The promises in the table. -/
def MessageBus.held (corrId : UInt32) (bus : MessageBus) : Nat :=
  (bus.pendingRequests.lookup corrId).isSome.toNat

/-- An effect that fulfils a promise. -/
def Effect.settles (corrId : UInt32) : Effect → Bool
  | settle c _ => decide (c = corrId)
  | _ => false

namespace BusThreads

/-- The promises that are destroyed without being fulfilled: a cancelled request, or one
whose place in the table is taken by another request. -/
def dropped (corrId : UInt32) (e : BusEvent) : Nat :=
  match e.action with
  | .cancelPendingRequest c => if c = corrId then e.before.held corrId else 0
  | .addRequest _ _ _ c _ => if c = corrId then e.before.held corrId else 0
  | _ => 0

/-- How many promises an event resolves. -/
def resolved (corrId : UInt32) (e : BusEvent) : Nat :=
  (e.outcome Action.run).effects.countP (Effect.settles corrId) + dropped corrId e

/-- An event that is none of the business of a request. -/
structure Untouched (corrId : UInt32) (e : BusEvent) : Prop where
  pendingRequests : (e.outcome Action.run).state.pendingRequests.lookup corrId =
    e.before.pendingRequests.lookup corrId
  effects : ∀ effect ∈ (e.outcome Action.run).effects, effect.settles corrId = false
  next : ∀ a ∈ (e.outcome Action.run).next, a.promises corrId = 0

end BusThreads

namespace Action

variable {corrId : UInt32} {env : Env} {bus : MessageBus}

/-! ### What an action does to a request -/

/-- Only an action for the request, the periodic sweep or `stop` changes its entry. -/
theorem lookup_pendingRequests {a : Action} (hother : a.correlation ≠ some corrId)
    (hsweep : a ≠ .sweepRequests) (hclear : a ≠ .clearRequests) :
    (run env a bus).state.pendingRequests.lookup corrId = bus.pendingRequests.lookup corrId := by
  have hne {c : UInt32} (h : some c ≠ some corrId) : corrId ≠ c := fun heq => h (heq ▸ rfl)
  have hkept := (run_keeps env a bus).pendingRequests
  cases a with
  | takeReplied c payload =>
      simp only [run, runTake]
      split
      · exact AList.lookup_erase_ne (hne hother)
      · rfl
  | takeUnprovided service c =>
      simp only [run, runTake]
      split
      · exact AList.lookup_erase_ne (hne hother)
      · rfl
  | addRequest service payload qos c timeoutOverride =>
      exact AList.lookup_insert_ne (hne hother)
  | cancelPendingRequest c => exact AList.lookup_erase_ne (hne hother)
  | sweepRequests => exact absurd rfl hsweep
  | clearRequests => exact absurd rfl hclear
  | _ => rw [hkept rfl]

/-- A promise is fulfilled by the thread that took it, or by `stop`. -/
theorem settle_mem_effects {a : Action} {outcome : Settlement}
    (h : .settle corrId outcome ∈ (run env a bus).effects) :
    a = .settle corrId outcome ∨ (a = .clearRequests ∧ outcome = busStopped ∧
      (bus.pendingRequests.lookup corrId).isSome = true) := by
  cases emits_of_mem h with
  | settle => exact Or.inl rfl
  | stopped _ hpending => exact Or.inr ⟨rfl, rfl, hpending⟩

/-- An action for another request, or for none, leaves a request alone. -/
theorem untouched (env : Env) (bus : MessageBus) {a : Action}
    (hother : a.correlation ≠ some corrId) (hsweep : a ≠ .sweepRequests)
    (hclear : a ≠ .clearRequests) (i : Nat) :
    BusThreads.Untouched corrId ⟨i, bus, env, a⟩ where
  pendingRequests := lookup_pendingRequests hother hsweep hclear
  effects := by
    intro effect hmem
    cases effect with
    | settle c outcome =>
        apply decide_eq_false
        rintro rfl
        obtain rfl | ⟨rfl, _⟩ := settle_mem_effects hmem
        · exact hother rfl
        · exact hclear rfl
    | _ => rfl
  next := by
    intro b hmem
    have hne {c : UInt32} (h : some c ≠ some corrId) : c ≠ corrId := fun heq => h (heq ▸ rfl)
    cases asks_of_mem hmem with
    | receive _ _ _ hb =>
        cases hb with
        | dispatches hb => cases hb <;> rfl
        | _ => rfl
    | isDuplicate _ _ hb => cases hb <;> rfl
    | takeReplied c payload => exact if_neg (hne hother)
    | handled _ _ _ c => exact if_neg (hne hother)
    | unhandled _ _ _ c => exact if_neg (hne hother)
    | runLocal _ _ c => exact if_neg (hne hother)
    | takeUnprovided _ c => exact if_neg (hne hother)
    | expire => exact absurd rfl hsweep
    | _ => rfl

/-! ### The law of promises -/

theorem settles_frames (corrId : UInt32) {effects : List Effect}
    (h : ∀ effect ∈ effects, ∃ n dest slices, effect = .frame n dest slices) :
    effects.countP (Effect.settles corrId) = 0 := by
  rw [List.countP_eq_zero]
  intro effect hmem
  obtain ⟨n, dest, slices, rfl⟩ := h effect hmem
  exact Bool.false_ne_true

theorem dispatchRequest_frames (env : Env) (bus : MessageBus) (service payload : Bytes)
    (qos : QoSProfile) (c : UInt32) :
    ∀ effect ∈ (bus.dispatchRequest env service payload qos c).2.2,
      ∃ n dest slices, effect = .frame n dest slices := by
  intro effect hmem
  obtain ⟨_, ep, stamp, rfl⟩ := MessageBus.mem_dispatchRequest env bus hmem
  exact ⟨_, _, _, rfl⟩

theorem held_dispatchRequest (corrId : UInt32) (env : Env) (bus : MessageBus)
    (service payload : Bytes) (qos : QoSProfile) (c : UInt32) :
    (bus.dispatchRequest env service payload qos c).2.1.held corrId = bus.held corrId := by
  obtain ⟨n, hshape⟩ := MessageBus.dispatchRequest_shape env bus service payload qos c
  rw [hshape]
  rfl

theorem sum_promises_settle (outcome : Settlement) (corrIds : List UInt32) :
    ((corrIds.map fun c => settle c outcome).map (promises corrId)).sum =
      corrIds.count corrId := by
  induction corrIds with
  | nil => rfl
  | cons c rest ih =>
      simp only [List.map_cons, List.sum_cons, List.count_cons, ih, promises, beq_iff_eq]
      omega

/-- A promise that is taken out of the table is in the hands of the thread that took it. -/
theorem take_law (corrId : UInt32) (bus : MessageBus) (outcome : Settlement) :
    (runTake corrId outcome bus).state.held corrId +
      ((runTake corrId outcome bus).next.map (promises corrId)).sum = bus.held corrId ∧
    (runTake corrId outcome bus).effects = [] := by
  simp only [runTake]
  split
  · rename_i pr hpr
    simp [MessageBus.held, hpr, promises]
  · simp

theorem sweep_law :
    (run env .sweepRequests bus).state.held corrId +
      ((run env .sweepRequests bus).next.map (promises corrId)).sum = bus.held corrId := by
  have hretries : (((bus.retryJobs env).map retryRequest).map (promises corrId)).sum = 0 := by
    refine Threads.sum_eq_zero_of_mem fun a ha => ?_
    obtain ⟨job, _, rfl⟩ := List.mem_map.mp ha
    rfl
  have hexpired : (bus.expiredRequests env).count corrId = _ :=
    Table.count_selected bus.pendingRequests (fun pr => pr.deadline ≤ env.now) corrId
  simp only [run, List.map_append, List.sum_append, hretries, sum_promises_settle, hexpired,
    MessageBus.held, MessageBus.sweepRequests, Table.lookup_sweep]
  cases bus.pendingRequests.lookup corrId with
  | none => rfl
  | some pr =>
      by_cases hdeadline : pr.deadline ≤ env.now
      · simp [hdeadline]
      · by_cases hdue : MessageBus.retryDue env.now pr = true
        · simp [hdeadline, hdue]
        · simp [hdeadline, hdue]

theorem clear_law (corrId : UInt32) (env : Env) (bus : MessageBus) :
    (run env .clearRequests bus).effects.countP (Effect.settles corrId) = bus.held corrId := by
  have hlisted := Table.count_toList bus.pendingRequests corrId
  simp only [run, List.countP_map, MessageBus.held, ← hlisted, List.count, List.countP_map]
  apply List.countP_congr
  intro entry _
  simp [Effect.settles]

theorem other_law {a : Action} (hother : a.correlation ≠ some corrId) (hsweep : a ≠ .sweepRequests)
    (hclear : a ≠ .clearRequests) (i : Nat) :
    (run env a bus).state.held corrId + ((run env a bus).next.map (promises corrId)).sum +
      BusThreads.resolved corrId ⟨i, bus, env, a⟩ = bus.held corrId + a.promises corrId := by
  have hquiet := untouched env bus hother hsweep hclear i
  have hne {c : UInt32} (h : some c ≠ some corrId) : c ≠ corrId := fun heq => h (heq ▸ rfl)
  have hheld : (run env a bus).state.held corrId = bus.held corrId :=
    congrArg (fun entry => entry.isSome.toNat) hquiet.pendingRequests
  have hnext : ((run env a bus).next.map (promises corrId)).sum = 0 :=
    Threads.sum_eq_zero_of_mem hquiet.next
  have hsettled : (run env a bus).effects.countP (Effect.settles corrId) = 0 := by
    rw [List.countP_eq_zero]
    intro effect hmem
    exact Bool.not_eq_true _ ▸ hquiet.effects effect hmem
  have hdropped : BusThreads.dropped corrId ⟨i, bus, env, a⟩ = 0 := by
    cases a with
    | cancelPendingRequest c => exact if_neg (hne hother)
    | addRequest _ _ _ c => exact if_neg (hne hother)
    | _ => rfl
  have hpromises : a.promises corrId = 0 := by
    cases a with
    | sendRequest _ _ _ c => exact if_neg (hne hother)
    | runLocal _ _ c => exact if_neg (hne hother)
    | addRequest _ _ _ c => exact if_neg (hne hother)
    | settle c => exact if_neg (hne hother)
    | _ => rfl
  simp only [BusThreads.resolved, Event.outcome]
  omega

/-- No action makes or loses a promise. -/
theorem promise_law (corrId : UInt32) (env : Env) (a : Action) (bus : MessageBus) (i : Nat) :
    (run env a bus).state.held corrId + ((run env a bus).next.map (promises corrId)).sum +
      BusThreads.resolved corrId ⟨i, bus, env, a⟩ = bus.held corrId + a.promises corrId := by
  by_cases hown : a.correlation = some corrId
  · cases a with
    | sendRequest service payload qos c timeoutOverride =>
        obtain rfl : c = corrId := Option.some.inj hown
        simp only [run, BusThreads.resolved, BusThreads.dropped, Event.outcome]
        split <;> simp [promises]
    | runLocal service payload c handler =>
        obtain rfl : c = corrId := Option.some.inj hown
        simp [run, BusThreads.resolved, BusThreads.dropped, Event.outcome, promises,
          Effect.settles, MessageBus.held]
    | addRequest service payload qos c timeoutOverride =>
        obtain rfl : c = corrId := Option.some.inj hown
        simp [run, BusThreads.resolved, BusThreads.dropped, Event.outcome, promises,
          MessageBus.held, Nat.add_comm]
    | dispatchRequest service payload qos c =>
        have hheld := held_dispatchRequest corrId env bus service payload qos c
        have hframes := settles_frames corrId (dispatchRequest_frames env bus service payload qos c)
        simp [run, BusThreads.resolved, BusThreads.dropped, Event.outcome, promises, hheld, hframes]
    | retryRequest job =>
        have hheld := held_dispatchRequest corrId env bus job.service job.payload job.qos job.corrId
        have hframes := settles_frames corrId
          (dispatchRequest_frames env bus job.service job.payload job.qos job.corrId)
        simp [run, BusThreads.resolved, BusThreads.dropped, Event.outcome, promises, hheld, hframes]
    | checkProvider service c sent =>
        simp only [run, BusThreads.resolved, BusThreads.dropped, Event.outcome]
        split <;> simp [promises]
    | takeUnprovided service c =>
        obtain rfl : c = corrId := Option.some.inj hown
        obtain ⟨hheld, heffects⟩ := take_law c bus (noProvider service)
        simp only [run, BusThreads.resolved, BusThreads.dropped, Event.outcome, heffects, promises]
        simpa using hheld
    | takeReplied c payload =>
        obtain rfl : c = corrId := Option.some.inj hown
        obtain ⟨hheld, heffects⟩ := take_law c bus (.value payload)
        simp only [run, BusThreads.resolved, BusThreads.dropped, Event.outcome, heffects, promises]
        simpa using hheld
    | cancelPendingRequest c =>
        obtain rfl : c = corrId := Option.some.inj hown
        simp [run, BusThreads.resolved, BusThreads.dropped, Event.outcome, promises,
          MessageBus.held, MessageBus.cancelPendingRequest]
    | settle c outcome =>
        obtain rfl : c = corrId := Option.some.inj hown
        simp [run, BusThreads.resolved, BusThreads.dropped, Event.outcome, promises, Effect.settles]
    | _ => cases hown
  · by_cases hsweep : a = .sweepRequests
    · subst hsweep
      exact sweep_law
    · by_cases hclear : a = .clearRequests
      · subst hclear
        have hcount := clear_law corrId env bus
        simp [run, BusThreads.resolved, BusThreads.dropped, Event.outcome, promises,
          MessageBus.held] at hcount ⊢
        exact hcount
      · exact other_law hown hsweep hclear i

end Action

namespace BusThreads

variable {s : BusThreads} {corrId : UInt32}
  {cond : BusThreads → Threads.Label Env Action → Prop}

/-! ### Runs -/

/-- A request that begins. -/
def requested (corrId : UInt32) : Action → Nat
  | .sendRequest _ _ _ c _ => if c = corrId then 1 else 0
  | _ => 0

/-- The requests with a correlation id that have begun. -/
def requests (corrId : UInt32) (s : BusThreads) : Nat :=
  Threads.account (fun _ => 0) (requested corrId) (fun e => requested corrId e.action) s

theorem requested_next (env : Env) (a : Action) (bus : MessageBus) :
    ((Action.run env a bus).next.map (requested corrId)).sum = 0 := by
  refine Threads.sum_eq_zero_of_mem fun b hb => ?_
  cases Action.asks_of_mem hb with
  | receive _ _ _ hb =>
      cases hb with
      | dispatches hb => cases hb <;> rfl
      | _ => rfl
  | isDuplicate _ _ hb => cases hb <;> rfl
  | _ => rfl

theorem requests_stepped {i : Nat} {env : Env} {a : Action} {rest : List Action}
    (hcall : s.calls[i]? = some (a :: rest)) :
    requests corrId (s.stepped Action.run i env a rest) = requests corrId s := by
  apply Threads.account_stepped_eq hcall
  rw [requested_next]

theorem held_of_initial {bus : MessageBus} (h : Initial bus) : bus.held corrId = 0 := by
  rw [h]
  rfl

/-- Every promise is in the table, with a thread, or resolved. -/
theorem promises_conserved (h : (system.restrict cond).Reachable s) (corrId : UInt32) :
    Threads.account (MessageBus.held corrId) (Action.promises corrId) (resolved corrId) s =
      requests corrId s := by
  refine Threads.invariant (motive := fun s => Threads.account (MessageBus.held corrId)
    (Action.promises corrId) (resolved corrId) s = requests corrId s) h ?_ ?_ ?_
  · intro s hinit hcalls hlog
    simp [Threads.account, Threads.owed, Threads.paid, requests, hcalls, hlog,
      held_of_initial hinit]
  · rintro s _ _ hinv ⟨call, rfl⟩ _
    have hsame : ([Action.ofCall call].map (Action.promises corrId)).sum =
        ([Action.ofCall call].map (requested corrId)).sum := by
      cases call <;> rfl
    rw [requests, Threads.account_start, Threads.account_start, hinv, hsame, requests]
  · intro s i env a rest _ hinv hcall _
    rw [Threads.account_stepped_eq hcall (Action.promise_law corrId env a s.shared i),
      requests_stepped hcall, hinv]

/-- Every correlation id is used for at most one request. -/
def Distinct (s : BusThreads) (l : Threads.Label Env Action) : Prop :=
  ∀ corrId, requests corrId (s.next Action.run l) ≤ 1

theorem requests_le_one (h : (system.restrict Distinct).Reachable s) (corrId : UInt32) :
    requests corrId s ≤ 1 := by
  cases h with
  | init hinit =>
      obtain ⟨_, hcalls, hlog⟩ := hinit
      simp [requests, Threads.account, Threads.owed, Threads.paid, hcalls, hlog]
  | step _ henabled => exact henabled.2 corrId

/-! ### Leaving the table -/

/-- An action that registers a request. -/
def registers (corrId : UInt32) : Action → Nat
  | .addRequest _ _ _ c _ => if c = corrId then 1 else 0
  | _ => 0

/-- An event with which a registered request leaves the table, or loses its place in it. -/
def leaves (corrId : UInt32) (e : BusEvent) : Nat :=
  if e.before.held corrId = 1 ∧
      ((e.outcome Action.run).state.held corrId = 0 ∨ registers corrId e.action = 1) then 1 else 0

/-- The requests that are not registered yet. -/
def unregistered (corrId : UInt32) (a : Action) : Nat :=
  requested corrId a + registers corrId a

theorem held_le_one (corrId : UInt32) (bus : MessageBus) : bus.held corrId ≤ 1 := Bool.toNat_le _

/-- Only the registration of a request puts it into the table. -/
theorem held_le (corrId : UInt32) (env : Env) (a : Action) (bus : MessageBus) :
    (Action.run env a bus).state.held corrId ≤
      bus.held corrId + registers corrId a := by
  have hlaw := Action.promise_law corrId env a bus 0
  cases a with
  | sendRequest service payload qos c timeoutOverride =>
      simp only [Action.run]
      split <;> exact Nat.le_add_right _ _
  | addRequest service payload qos c timeoutOverride =>
      simp only [Action.promises, registers] at hlaw ⊢
      omega
  | runLocal => exact Nat.le_add_right _ _
  | settle => exact Nat.le_add_right _ _
  | _ =>
      simp only [Action.promises] at hlaw
      omega

/-- A request is registered by the call that makes it. -/
theorem unregistered_asked {env : Env} {bus : MessageBus} {a b : Action}
    (h : Action.Asks env bus a b) :
    unregistered corrId b = 0 ∨ ∃ service payload qos c timeout,
      a = .sendRequest service payload qos c timeout := by
  cases h with
  | unhandled service payload qos c timeout => exact Or.inr ⟨service, payload, qos, c, timeout, rfl⟩
  | receive _ _ _ hb =>
      cases hb with
      | dispatches hb => cases hb <;> exact Or.inl rfl
      | _ => exact Or.inl rfl
  | isDuplicate _ _ hb => cases hb <;> exact Or.inl rfl
  | _ => exact Or.inl rfl

theorem unregistered_next (corrId : UInt32) (env : Env) (a : Action) (bus : MessageBus) :
    ((Action.run env a bus).next.map (unregistered corrId)).sum ≤ requested corrId a := by
  cases a with
  | sendRequest service payload qos c timeoutOverride =>
      simp only [Action.run]
      split <;> simp [unregistered, requested, registers]
  | _ =>
      refine Nat.le_of_eq (Threads.sum_eq_zero_of_mem fun b hb => ?_)
      obtain hzero | ⟨_, _, _, _, _, hcall⟩ := unregistered_asked (Action.asks_of_mem hb)
      · exact hzero
      · cases hcall

theorem leave_law (env : Env) (a : Action) (bus : MessageBus) (i : Nat) :
    (Action.run env a bus).state.held corrId +
      ((Action.run env a bus).next.map (unregistered corrId)).sum +
      leaves corrId ⟨i, bus, env, a⟩ ≤ bus.held corrId + unregistered corrId a := by
  have hheld := held_le corrId env a bus
  have hnext := unregistered_next corrId env a bus
  have hone := held_le_one corrId (Action.run env a bus).state
  have hafter : ((⟨i, bus, env, a⟩ : BusEvent).outcome Action.run).state.held corrId =
    (Action.run env a bus).state.held corrId := rfl
  have hdisjoint : registers corrId a = 1 → requested corrId a = 0 := by
    cases a <;> simp [registers, requested]
  simp only [leaves, unregistered, hafter]
  split
  · rename_i hleaves
    obtain ⟨hbefore, hgone | hregisters⟩ := hleaves
    · omega
    · have hzero := hdisjoint hregisters
      omega
  · omega

/-- A request leaves the table at most once. -/
theorem leaves_le_requests (h : (system.restrict cond).Reachable s) :
    Threads.paid (leaves corrId) s ≤ requests corrId s := by
  suffices Threads.account (MessageBus.held corrId) (unregistered corrId) (leaves corrId) s ≤
      requests corrId s by
    simp only [Threads.account] at this
    omega
  refine Threads.invariant (motive := fun s => Threads.account (MessageBus.held corrId)
    (unregistered corrId) (leaves corrId) s ≤ requests corrId s) h ?_ ?_ ?_
  · intro s hinit hcalls hlog
    simp [Threads.account, Threads.owed, Threads.paid, hcalls, hlog, held_of_initial hinit]
  · rintro s _ _ hinv ⟨call, rfl⟩ _
    have hsame : ([Action.ofCall call].map (unregistered corrId)).sum =
        ([Action.ofCall call].map (requested corrId)).sum := by
      cases call <;> rfl
    rw [requests, Threads.account_start, Threads.account_start, hsame]
    exact Nat.add_le_add_right hinv _
  · intro s i env a rest _ hinv hcall _
    rw [requests_stepped hcall]
    exact Nat.le_trans (Threads.account_stepped hcall (leave_law env a s.shared i)) hinv

theorem resolved_le_requests (h : (system.restrict cond).Reachable s) :
    Threads.paid (resolved corrId) s ≤ requests corrId s := by
  have hconserved := promises_conserved h corrId
  simp only [Threads.account] at hconserved
  omega

/-! ### Outcomes -/

/-- A call has received a REPLY frame with a correlation id and a payload. -/
def GotReply (corrId : UInt32) (payload : Bytes) (call : Nat) (log : List BusEvent) : Prop :=
  ∃ e ∈ log, e.call = call ∧ ∃ source r, Decodes e source r ∧
    MessageType.ofByte r.header.msgType = .reply ∧ r.header.correlationId = corrId ∧
    r.payload = payload

/-- The time at which a request expires was fixed when it was registered. -/
def Deadline (corrId : UInt32) (deadline : Int) (log : List BusEvent) : Prop :=
  ∃ e ∈ log, ∃ service payload qos timeout,
    e.action = .addRequest service payload qos corrId timeout ∧
    deadline = MessageBus.requestDeadline e.input (MessageBus.requestTimeoutMs qos timeout)

/-- Why a promise is fulfilled in the way it is: what happened in the call that does so. -/
inductive Reason (corrId : UInt32) (call : Nat) (log : List BusEvent) : Settlement → Prop where
  | reply {payload : Bytes} {e : BusEvent} : GotReply corrId payload call log → e ∈ log →
      e.call = call → e.action = .takeReplied corrId payload →
      (e.before.pendingRequests.lookup corrId).isSome = true →
      Reason corrId call log (.value payload)
  | localHandler {service payload response : Bytes} {handler : Nat} {req : ReceivedMessage}
      {e : BusEvent} : e ∈ log → e.call = call →
      e.action = .runLocal service payload corrId handler →
      .handle handler req response ∈ (e.outcome Action.run).effects →
      Reason corrId call log (.value response)
  | timeout {pr : PendingRequest} {e : BusEvent} : e ∈ log → e.call = call →
      e.action = .sweepRequests → e.before.pendingRequests.lookup corrId = some pr →
      Deadline corrId pr.deadline log → pr.deadline ≤ e.input.now →
      Reason corrId call log Action.requestTimedOut
  | noProvider {service : Bytes} {e : BusEvent} : e ∈ log → e.call = call →
      e.action = .takeUnprovided service corrId →
      (e.before.pendingRequests.lookup corrId).isSome = true →
      Reason corrId call log (Action.noProvider service)
  | stopped {e : BusEvent} : e ∈ log → e.call = call → e.action = .clearRequests →
      (e.before.pendingRequests.lookup corrId).isSome = true →
      Reason corrId call log Action.busStopped

theorem lookup_take {c : UInt32} {outcome : Settlement} {bus : MessageBus} {pr : PendingRequest}
    (hpr : (Action.runTake c outcome bus).state.pendingRequests.lookup corrId = some pr) :
    bus.pendingRequests.lookup corrId = some pr := by
  simp only [Action.runTake] at hpr
  split at hpr
  · have herase := (Table.lookup_erase_eq bus.pendingRequests corrId c).symm.trans hpr
    split at herase
    · cases herase
    · exact herase
  · exact hpr

/-- What a step makes of an entry: it keeps the deadline, or registers the request. -/
theorem lookup_run {env : Env} {a : Action} {bus : MessageBus} {pr : PendingRequest}
    (hpr : (Action.run env a bus).state.pendingRequests.lookup corrId = some pr) :
    (∃ old, bus.pendingRequests.lookup corrId = some old ∧ pr.deadline = old.deadline) ∨
      ∃ service payload qos timeout, a = .addRequest service payload qos corrId timeout ∧
        pr = MessageBus.pendingRequest env service payload qos corrId timeout := by
  by_cases hown : a.correlation = some corrId
  · cases a with
    | addRequest service payload qos c timeout =>
        obtain rfl : c = corrId := Option.some.inj hown
        have hentry : some _ = some pr := (AList.lookup_insert _).symm.trans hpr
        exact Or.inr ⟨service, payload, qos, timeout, rfl, (Option.some.inj hentry).symm⟩
    | takeReplied c payload => exact Or.inl ⟨pr, lookup_take hpr, rfl⟩
    | takeUnprovided service c => exact Or.inl ⟨pr, lookup_take hpr, rfl⟩
    | cancelPendingRequest c =>
        obtain rfl : c = corrId := Option.some.inj hown
        have hnone : none = some pr := (AList.lookup_erase _ _).symm.trans hpr
        cases hnone
    | sweepRequests => cases hown
    | clearRequests => cases hown
    | _ =>
        rw [(Action.run_keeps env _ bus).pendingRequests rfl] at hpr
        exact Or.inl ⟨pr, hpr, rfl⟩
  · by_cases hsweep : a = .sweepRequests
    · subst hsweep
      obtain ⟨old, hold, hkept⟩ := Option.bind_eq_some_iff.mp
        ((Table.lookup_sweep _ _ _).symm.trans hpr)
      refine Or.inl ⟨old, hold, ?_⟩
      split at hkept
      · cases hkept
      · split at hkept <;> rw [← Option.some.inj hkept]
    · by_cases hclear : a = .clearRequests
      · subst hclear
        cases hpr
      · rw [Action.lookup_pendingRequests hown hsweep hclear] at hpr
        exact Or.inl ⟨pr, hpr, rfl⟩

section Outcomes

variable (h : (system.restrict cond).Reachable s)
include h

/-- The deadline of an entry is the one it was registered with. -/
theorem deadline_registered {pr : PendingRequest}
    (hpr : s.shared.pendingRequests.lookup corrId = some pr) :
    Deadline corrId pr.deadline s.log := by
  refine Threads.invariant (motive := fun s => ∀ pr,
    s.shared.pendingRequests.lookup corrId = some pr → Deadline corrId pr.deadline s.log)
    h ?_ ?_ ?_ pr hpr
  · intro s hinit _ _ pr hpr
    rw [hinit] at hpr
    cases hpr
  · intro s actions _ hinv _ _
    exact hinv
  · intro s i env a rest _ hinv _ _ pr hpr
    obtain ⟨old, hold, hdeadline⟩ | ⟨service, payload, qos, timeout, rfl, rfl⟩ :=
      lookup_run hpr
    · obtain ⟨e, he, hrest⟩ := hinv old hold
      rw [hdeadline]
      exact ⟨e, List.mem_cons_of_mem _ he, hrest⟩
    · exact ⟨_, List.mem_cons_self, service, payload, qos, timeout, rfl, rfl⟩

theorem gotReply_of_takeReplied {post pre : List BusEvent} {e : BusEvent} {payload : Bytes}
    (hlog : s.log = post ++ e :: pre) (haction : e.action = .takeReplied corrId payload) :
    GotReply corrId payload e.call pre := by
  obtain ⟨post', asker, pre', rfl, hcall, hasks⟩ := event_asked h hlog (by
    rw [haction]
    rintro (_ | _) ⟨⟩)
  have hmem : asker ∈ post' ++ asker :: pre' := List.mem_append_right _ List.mem_cons_self
  rw [haction] at hasks
  generalize hasker : asker.action = a at hasks
  cases hasks with
  | receive source data hvalid hreceives =>
      cases hreceives with
      | dispatches hb =>
          cases hb with
          | takeReplied htype =>
              exact ⟨asker, hmem, hcall, source, _, ⟨data, hasker, rfl, hvalid⟩, htype, rfl, rfl⟩
  | isDuplicate source r hb =>
      cases hb with
      | takeReplied htype =>
          have hlog' : s.log = (post ++ e :: post') ++ asker :: pre' := by
            rw [hlog, List.append_assoc, List.cons_append]
          obtain ⟨first, hfirst, hsame, hdecodes⟩ := decodes_of_isDuplicate h hlog' hasker
          exact ⟨first, List.mem_append_right _ (List.mem_cons_of_mem _ hfirst),
            hsame.trans hcall, source, r, hdecodes, htype, rfl, rfl⟩

theorem settle_reason {post pre : List BusEvent} {e : BusEvent} {outcome : Settlement}
    (hlog : s.log = post ++ e :: pre)
    (hsettle : .settle corrId outcome ∈ (e.outcome Action.run).effects) :
    Reason corrId e.call (e :: pre) outcome := by
  obtain haction | ⟨haction, rfl, hpending⟩ := Action.settle_mem_effects hsettle
  · obtain ⟨post', asker, pre', rfl, hcall, hasks⟩ := event_asked h hlog (by
      rw [haction]
      rintro (_ | _) ⟨⟩)
    have hlog' : s.log = (post ++ e :: post') ++ asker :: pre' := by
      rw [hlog, List.append_assoc, List.cons_append]
    have hmem : asker ∈ e :: (post' ++ asker :: pre') :=
      List.mem_cons_of_mem _ (List.mem_append_right _ List.mem_cons_self)
    have hsub : ∀ x ∈ pre', x ∈ e :: (post' ++ asker :: pre') := fun x hx =>
      List.mem_cons_of_mem _ (List.mem_append_right _ (List.mem_cons_of_mem _ hx))
    rw [haction] at hasks
    generalize hasker : asker.action = a at hasks
    cases hasks with
    | takeReplied _ payload hpending =>
        obtain ⟨first, hfirst, hsame, hrest⟩ := gotReply_of_takeReplied h hlog' hasker
        exact .reply ⟨first, hsub first hfirst, hsame.trans hcall, hrest⟩ hmem hcall hasker
          hpending
    | runLocal service payload _ handler req response hhandled =>
        have hhandled' : .handle handler req response ∈ (asker.outcome Action.run).effects := by
          rw [Event.outcome, hasker]
          exact hhandled
        exact .localHandler hmem hcall hasker hhandled'
    | takeUnprovided service _ hpending => exact .noProvider hmem hcall hasker hpending
    | expire _ pr hpr hdeadline =>
        obtain ⟨t, _, hreach, rfl, hshared, _⟩ := Threads.event_origin h hlog'
        rw [← hshared] at hpr
        obtain ⟨first, hfirst, hrest⟩ := deadline_registered hreach hpr
        rw [hshared] at hpr
        exact .timeout hmem hcall hasker hpr ⟨first, hsub first hfirst, hrest⟩ hdeadline
    | receive _ _ _ hb =>
        cases hb with
        | dispatches hb => cases hb
    | isDuplicate _ _ hb => cases hb
  · exact .stopped List.mem_cons_self rfl haction hpending

end Outcomes

/-- The periodic task decides about each entry by the entry's own deadline. -/
theorem lookup_sweepRequests (env : Env) {bus : MessageBus} {pr : PendingRequest}
    (hpr : bus.pendingRequests.lookup corrId = some pr) (hdeadline : env.now < pr.deadline) :
    ∃ kept, (Action.run env .sweepRequests bus).state.pendingRequests.lookup corrId = some kept ∧
      kept.deadline = pr.deadline := by
  have hsweep : (Action.run env .sweepRequests bus).state.pendingRequests.lookup corrId = _ :=
    Table.lookup_sweep _ _ _
  rw [hsweep, hpr, Option.bind_some, if_neg (Int.not_le.mpr hdeadline)]
  split
  · exact ⟨_, rfl, rfl⟩
  · exact ⟨_, rfl, rfl⟩

/-- Requests with distinct correlation ids complete at most once, each for a reason of its
own, and do not disturb each other. -/
theorem requests_complete_once (h : (system.restrict Distinct).Reachable s) (corrId : UInt32) :
    Threads.paid (leaves corrId) s ≤ 1 ∧ Threads.paid (resolved corrId) s ≤ 1 ∧
    (∀ post e pre outcome, s.log = post ++ e :: pre →
      .settle corrId outcome ∈ (e.outcome Action.run).effects →
      Reason corrId e.call (e :: pre) outcome) ∧
    (∀ e ∈ s.log, e.action.correlation ≠ some corrId → e.action ≠ .clearRequests →
      (e.action ≠ .sweepRequests → Untouched corrId e) ∧
      (e.action = .sweepRequests → ∀ pr, e.before.pendingRequests.lookup corrId = some pr →
        e.input.now < pr.deadline → ∃ kept,
          (e.outcome Action.run).state.pendingRequests.lookup corrId = some kept ∧
          kept.deadline = pr.deadline)) := by
  have hone := requests_le_one h corrId
  refine ⟨Nat.le_trans (leaves_le_requests h) hone,
    Nat.le_trans (resolved_le_requests h) hone, fun post e pre outcome => settle_reason h, ?_⟩
  intro e _ hother hclear
  refine ⟨fun hsweep => Action.untouched e.input e.before hother hsweep hclear e.call, ?_⟩
  intro haction pr hpr hdeadline
  rw [Event.outcome, haction]
  exact lookup_sweepRequests e.input hpr hdeadline

/-! ### A request that times out -/

/-- The requests that a list of labels begins. -/
def begun (corrId : UInt32) : List (Threads.Label Env Action) → Nat
  | [] => 0
  | .start actions :: rest => (actions.map (requested corrId)).sum + begun corrId rest
  | .step _ _ :: rest => begun corrId rest

theorem requests_next_step (i : Nat) (env : Env) :
    requests corrId (s.next Action.run (.step i env)) = requests corrId s := by
  simp only [Threads.next]
  split
  · rename_i hcall
    exact requests_stepped hcall
  · rfl

theorem along_distinct {labels : List (Threads.Label Env Action)}
    (h : ∀ corrId, requests corrId s + begun corrId labels ≤ 1) :
    Threads.Along Action.run Distinct s labels := by
  induction labels generalizing s with
  | nil => exact trivial
  | cons l rest ih =>
      have hnext : ∀ corrId, requests corrId (s.next Action.run l) + begun corrId rest ≤ 1 := by
        intro corrId
        have hle := h corrId
        cases l with
        | start actions =>
            have hstart : requests corrId (s.next Action.run (.start actions)) =
              requests corrId s + (actions.map (requested corrId)).sum :=
              Threads.account_start actions
            simp only [begun] at hle
            omega
        | step i env =>
            rw [requests_next_step]
            exact hle
      exact ⟨fun corrId => Nat.le_trans (Nat.le_add_right _ _) (hnext corrId), ih hnext⟩

/-- A request is registered and sent; then the periodic task finds that its second is over. -/
def timeoutMoves : List Move :=
  .begin (.sendRequest [0x73] [] {} 7 1000) :: (Move.run 4 0 (clock 0)).append
    (.begin .tick :: Move.run 7 1 (clock 2000000000))

theorem requests_complete_once_timeout :
    Threads.paid (resolved 7) (after fresh timeoutMoves) = 1 ∧
      Threads.paid (leaves 7) (after fresh timeoutMoves) ≤ 1 := by
  refine ⟨by decide, (requests_complete_once (after_reachable initial_fresh (by decide) ?_) 7).1⟩
  apply along_distinct
  intro corrId
  simp [timeoutMoves, Move.run, begun, Move.label, requests, Threads.account, Threads.owed,
    Threads.paid,
    idle, requested, Action.ofCall]
  split <;> omega

end BusThreads

end EmbedMq
