import EmbedMq.Concurrent.Requests

/-!
# Requests to a stopped bus

`stop` abandons the requests that are pending, and after it no periodic task is left
that could time one out. A request that is registered later is completed only by the
call that made it, and this call does so only if it knows no provider and has no
transport. So a stopped bus has a pending request if and only if a call is about to
complete it, as long as no request to a stopped bus finds a provider or a transport;
otherwise the request hangs.
-/

namespace EmbedMq

namespace BusThreads

variable {s : BusThreads} {corrId : UInt32}

/-- `stop` has returned and `start` was not called again, or not yet at all. -/
def Stopped (s : BusThreads) : Prop :=
  s.shared.running = false ∧ ∀ i, ¬ s.Waiting i .clearRequests

/-- No call is in progress. -/
def Quiescent (s : BusThreads) : Prop := ∀ call ∈ s.calls, call = []

instance (s : BusThreads) : Decidable (Quiescent s) :=
  decidable_of_iff (∀ call ∈ s.calls, call.isEmpty = true)
    (forall₂_congr fun _ _ => List.isEmpty_iff)

def Pending (corrId : UInt32) (s : BusThreads) : Prop :=
  (s.shared.pendingRequests.lookup corrId).isSome = true

/-- While the bus is stopped, a pending request finds no peer that offers the service and
no active transport. -/
def Unserved (s : BusThreads) : Threads.Label Env Action → Prop
  | .start _ => True
  | .step i env => Stopped s → ∀ service corrId rest, Pending corrId s →
      (∀ payload qos, s.calls[i]? = some (.dispatchRequest service payload qos corrId :: rest) →
        s.shared.targets env (fun sub => decide (sub = MessageBus.svcPrefix ++ service)) = []) ∧
      (s.calls[i]? = some (.checkProvider service corrId false :: rest) →
        env.active MessageBus.udp = false ∧ env.active MessageBus.tcp = false ∧
          env.active MessageBus.shm = false)

/-- What a call that completes its own request still has to do. -/
def Completing (corrId : UInt32) : Action → Prop
  | .dispatchRequest _ _ _ c => c = corrId
  | .checkProvider _ c sent => c = corrId ∧ sent = false
  | .takeUnprovided _ c => c = corrId
  | _ => False

/-- Every pending request is about to be completed by the call that made it. -/
def Attended (s : BusThreads) : Prop :=
  Stopped s → ∀ corrId, Pending corrId s → ∃ i a, s.Waiting i a ∧ Completing corrId a

/-! ### One step -/

section Step

variable {i : Nat} {env : Env} {a : Action} {rest : List Action}
  (hcall : s.calls[i]? = some (a :: rest))

/-- A request that is pending after a step was pending before, or the step registers it. -/
theorem pending_stepped (h : Pending corrId (s.stepped Action.run i env a rest)) :
    Pending corrId s ∨ ∃ service payload qos timeout,
      a = .addRequest service payload qos corrId timeout := by
  obtain ⟨pr, hpr⟩ := Option.isSome_iff_exists.mp h
  obtain ⟨old, hold, _⟩ | ⟨service, payload, qos, timeout, ha, _⟩ := lookup_run hpr
  · exact Or.inl (Option.isSome_iff_exists.mpr ⟨old, hold⟩)
  · exact Or.inr ⟨service, payload, qos, timeout, ha⟩

include hcall

/-- The bus becomes stopped when the requests are abandoned. -/
theorem stopped_stepped (h : Stopped (s.stepped Action.run i env a rest)) :
    Stopped s ∨ a = .clearRequests := by
  by_cases hclear : a = .clearRequests
  · exact Or.inr hclear
  · refine Or.inl ⟨?_, ?_⟩
    · have hkept := (Action.run_keeps env a s.shared).running
      have hafter : (Action.run env a s.shared).state.running = false := h.1
      cases a with
      | stop =>
          by_contra hrunning
          have hasked : Action.clearRequests ∈ (Action.run env .stop s.shared).next := by
            rw [Bool.not_eq_false] at hrunning
            simp [Action.run, hrunning]
          exact h.2 i (Threads.waiting_next hcall hasked)
      | setting change =>
          cases change with
          | start => exact absurd hafter Bool.true_eq_false_eq_False
          | _ => rw [← hkept rfl, hafter]
      | _ => rw [← hkept rfl, hafter]
    · intro j hwaiting
      obtain ⟨_, heq⟩ | hstill := hwaiting.stepped hcall Action.run env
      · exact hclear heq.symm
      · exact h.2 j hstill

/-- The call that completes a request goes on to do so. -/
theorem completing_stepped (hstopped : Stopped s) (hcond : Unserved s (.step i env))
    (hpending : Pending corrId s) (hcompleting : Completing corrId a)
    (hafter : Pending corrId (s.stepped Action.run i env a rest)) :
    ∃ b ∈ (Action.run env a s.shared).next, Completing corrId b := by
  cases a with
  | dispatchRequest service payload qos c =>
      obtain rfl : c = corrId := hcompleting
      have htargets := (hcond hstopped service c rest hpending).1 payload qos hcall
      refine ⟨.checkProvider service c false, ?_, rfl, rfl⟩
      simp [Action.run, MessageBus.dispatchRequest, htargets]
  | checkProvider service c sent =>
      obtain ⟨rfl, rfl⟩ : c = corrId ∧ sent = false := hcompleting
      obtain ⟨hudp, htcp, hshm⟩ := (hcond hstopped service c rest hpending).2 hcall
      refine ⟨.takeUnprovided service c, ?_, rfl⟩
      simp [Action.run, hudp, htcp, hshm]
  | takeUnprovided service c =>
      obtain rfl : c = corrId := hcompleting
      obtain ⟨pr, hpr⟩ := Option.isSome_iff_exists.mp hpending
      have hgone : (Action.run env (.takeUnprovided service c) s.shared).state.held c = 0 := by
        simp [Action.run, Action.runTake, hpr, MessageBus.held]
      have hheld : (Action.run env (.takeUnprovided service c) s.shared).state.held c = 1 :=
        congrArg Bool.toNat hafter
      omega
  | _ => exact absurd hcompleting id

theorem attended_stepped (hinv : Attended s) (hcond : Unserved s (.step i env)) :
    Attended (s.stepped Action.run i env a rest) := by
  intro hafter corrId hpending
  obtain hstopped | rfl := stopped_stepped hcall hafter
  · obtain hbefore | ⟨service, payload, qos, timeout, rfl⟩ := pending_stepped hpending
    · obtain ⟨j, b, hwaiting, hcompleting⟩ := hinv hstopped corrId hbefore
      obtain ⟨_, rfl⟩ | hstill := hwaiting.stepped hcall Action.run env
      · obtain ⟨next, hnext, hgoes⟩ :=
          completing_stepped hcall hstopped hcond hbefore hcompleting hpending
        exact ⟨i, next, Threads.waiting_next hcall hnext, hgoes⟩
      · exact ⟨j, b, hstill, hcompleting⟩
    · exact ⟨i, .dispatchRequest service payload qos corrId,
        Threads.waiting_next hcall (List.mem_singleton.mpr rfl), rfl⟩
  · exact absurd hpending Bool.false_ne_true

end Step

/-! ### Runs -/

/-- On a stopped bus, a pending request is about to be completed by its call, in every run in
which such requests find neither provider nor transport. -/
theorem attended (h : (system.restrict Unserved).Reachable s) : Attended s := by
  refine Threads.invariant (motive := Attended) h ?_ ?_ ?_
  · intro s hinit _ _ _ corrId hpending
    rw [Pending, hinit] at hpending
    exact absurd hpending Bool.false_ne_true
  · intro s actions _ hinv _ _ hstopped corrId hpending
    have hbefore : Stopped s := ⟨hstopped.1, fun i hwaiting =>
      hstopped.2 i (hwaiting.start actions)⟩
    obtain ⟨i, a, hwaiting, hcompleting⟩ := hinv hbefore corrId hpending
    exact ⟨i, a, hwaiting.start actions, hcompleting⟩
  · intro s i env a rest _ hinv hcall hcond
    exact attended_stepped hcall hinv hcond

theorem not_waiting_of_quiescent (h : Quiescent s) (i : Nat) (a : Action) : ¬ s.Waiting i a := by
  rintro ⟨call, hcall, hmem⟩
  rw [h call (List.mem_of_getElem? hcall)] at hmem
  exact List.not_mem_nil hmem

/-- A stopped bus has no pending request that is left to itself: once no call is in progress,
none is pending and every promise is resolved. -/
theorem stopped_requests_resolved (h : (system.restrict Unserved).Reachable s)
    (hstopped : Stopped s) :
    (∀ corrId, Pending corrId s → ∃ i a, s.Waiting i a ∧ Completing corrId a) ∧
    (Quiescent s → s.shared.pendingRequests = ∅ ∧
      ∀ corrId, Threads.paid (resolved corrId) s = requests corrId s) := by
  refine ⟨attended h hstopped, ?_⟩
  intro hquiet
  have hnone : ∀ corrId, s.shared.pendingRequests.lookup corrId = none := by
    intro corrId
    rw [← Option.not_isSome_iff_eq_none]
    intro hpending
    obtain ⟨i, a, hwaiting, _⟩ := attended h hstopped corrId hpending
    exact not_waiting_of_quiescent hquiet i a hwaiting
  refine ⟨Table.eq_empty_of_lookup hnone, ?_⟩
  intro corrId
  have hconserved := promises_conserved h corrId
  have hheld : s.shared.held corrId = 0 := by rw [MessageBus.held, hnone]; rfl
  have howed : Threads.owed (Action.promises corrId) s = 0 :=
    Threads.owed_eq_zero fun i a hwaiting => absurd hwaiting (not_waiting_of_quiescent hquiet i a)
  rw [Threads.account, howed, hheld] at hconserved
  omega

/-! ### After the transports are down -/

/-- The surroundings after `shutdownAll`. -/
def down : Env := { clock 0 with active := fun _ => false }

/-- Without peers and transports, no request is served. -/
theorem unserved_of_down {i : Nat} (hpeers : s.shared.peers = ∅) :
    Unserved s (.step i down) := by
  intro _ service corrId rest _
  refine ⟨fun payload qos _ => ?_, fun _ => ⟨rfl, rfl, rfl⟩⟩
  simp only [MessageBus.targets, hpeers]
  rfl

/-- The bus is started and stopped, and then a request is made. -/
def lateMoves : List Move :=
  [.begin .start, .go 0 down, .begin .stop, .go 1 down, .go 1 down,
    .begin (.sendRequest [0x73] [] {} 7 1000)].append (Move.run 6 2 down)

theorem stopped_requests_resolved_late :
    Stopped (after fresh lateMoves) ∧ requests 7 (after fresh lateMoves) = 1 ∧
      Threads.paid (resolved 7) (after fresh lateMoves) = requests 7 (after fresh lateMoves) := by
  have hquiet : Quiescent (after fresh lateMoves) := by decide
  have hstopped : Stopped (after fresh lateMoves) :=
    ⟨by decide, fun i => not_waiting_of_quiescent hquiet i _⟩
  have hreach : (system.restrict Unserved).Reachable (after fresh lateMoves) := by
    refine after_reachable initial_fresh (by decide) ?_
    exact ⟨trivial, unserved_of_down rfl, trivial, unserved_of_down rfl, unserved_of_down rfl,
      trivial, unserved_of_down rfl, unserved_of_down rfl, unserved_of_down rfl,
      unserved_of_down rfl, unserved_of_down rfl, unserved_of_down rfl, trivial⟩
  exact ⟨hstopped, by decide, ((stopped_requests_resolved hreach hstopped).2 hquiet).2 7⟩

/-- A peer that offers the service. -/
def provider : PeerInfo where
  id := 2
  name := []
  hostName := []
  endpoints := [{ address := [2], port := 7400, transportType := MessageBus.udp }]
  publishedTopics := []
  subscribedTopics := [MessageBus.svcPrefix ++ [0x73]]

/-- As before, but the bus still knows a provider when the request is made. -/
def hangingMoves : List Move :=
  [.begin .start, .go 0 down, .begin (.peerDiscovered provider), .go 1 down, .begin .stop,
    .go 2 down, .go 2 down, .begin (.sendRequest [0x73] [] {} 7 1000)].append
    (Move.run 4 3 down)

theorem stopped_request_hangs :
    ¬ ∀ s : BusThreads, system.Reachable s → (∃ e ∈ s.log, e.action = .stop) → Stopped s →
      Quiescent s → s.shared.pendingRequests = ∅ := by
  intro hclaim
  have hquiet : Quiescent (after fresh hangingMoves) := by decide
  have hreach : (system.restrict fun _ _ => True).Reachable (after fresh hangingMoves) :=
    after_reachable initial_fresh (by decide) (Threads.along_true _)
  have hstop : ∃ e ∈ (after fresh hangingMoves).log, e.action = .stop :=
    ⟨_, List.mem_of_getElem? (i := 5) rfl, rfl⟩
  have hempty := hclaim _ (TransitionSystem.reachable_restrict_true.mp hreach) hstop
    ⟨by decide, fun i => not_waiting_of_quiescent hquiet i _⟩ hquiet
  have hpending : (after fresh hangingMoves).shared.held 7 = 1 := by decide
  rw [MessageBus.held, hempty] at hpending
  exact absurd hpending (by decide)

end BusThreads

end EmbedMq
