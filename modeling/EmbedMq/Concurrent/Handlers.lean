import EmbedMq.Bus.Replies
import EmbedMq.Concurrent.Steps

/-!
# How often a service handler runs

A REQUEST frame is looked up in the reply cache; if there is no entry, the handler runs
and its response is entered. The three are separate steps, so two threads that receive
frames of the same request may both find no entry. As long as a request is looked up
only while no other thread is between its lookup and its entry, the handler runs again
only after the periodic task has removed the entry, thirty seconds or more after it was
made.
-/

namespace EmbedMq

open MessageCodec (DecodeResult)

/-- The key of the request that a REQUEST frame belongs to. -/
def MessageCodec.DecodeResult.key (r : DecodeResult) : UInt64 :=
  MessageBus.replyKey r.header.sourceId r.header.correlationId

namespace BusThreads

variable {s : BusThreads} {key : UInt64}

/-! ### Between lookup and entry -/

/-- A thread that has found no cached reply and has not run the handler yet. -/
def serving (key : UInt64) : Action → Nat
  | .findHandler _ r => if r.key = key then 1 else 0
  | .runHandler _ r _ => if r.key = key then 1 else 0
  | _ => 0

/-- A thread that has a response to enter into the cache. -/
def caching (key : UInt64) : Action → Nat
  | .cacheReply _ r _ => if r.key = key then 1 else 0
  | _ => 0

/-- A lookup that finds no entry. -/
def misses (key : UInt64) (bus : MessageBus) : Action → Nat
  | .findReply _ r => if r.key = key ∧ bus.replyCache.lookup key = none then 1 else 0
  | _ => 0

/-- A request is looked up only while no thread is between its lookup and its entry. -/
def Separate (s : BusThreads) : Threads.Label Env Action → Prop
  | .start _ => True
  | .step i _ => ∀ source r rest, s.calls[i]? = some (.findReply source r :: rest) →
      ∀ j a, s.Waiting j a → serving r.key a = 0 ∧ caching r.key a = 0

/-- Only the lookups and the run of the handler lead to the entry. -/
theorem serving_asked {env : Env} {bus : MessageBus} {a b : Action} (h : Action.Asks env bus a b) :
    (serving key b = 0 ∧ caching key b = 0) ∨ (∃ source r, a = .findReply source r) ∨
      (∃ source r, a = .findHandler source r) ∨
        ∃ source r handler, a = .runHandler source r handler := by
  cases h with
  | findReply source r => exact Or.inr (Or.inl ⟨source, r, rfl⟩)
  | findHandler source r => exact Or.inr (Or.inr (Or.inl ⟨source, r, rfl⟩))
  | runHandler source r handler => exact Or.inr (Or.inr (Or.inr ⟨source, r, handler, rfl⟩))
  | receive _ _ _ hb =>
      cases hb with
      | dispatches hb => cases hb <;> exact Or.inl ⟨rfl, rfl⟩
      | _ => exact Or.inl ⟨rfl, rfl⟩
  | isDuplicate _ _ hb => cases hb <;> exact Or.inl ⟨rfl, rfl⟩
  | _ => exact Or.inl ⟨rfl, rfl⟩

theorem serving_next (key : UInt64) (env : Env) (a : Action) (bus : MessageBus) :
    ((Action.run env a bus).next.map (serving key)).sum +
      ((Action.run env a bus).next.map (caching key)).sum ≤
      serving key a + misses key bus a := by
  by_cases hserves : (∃ source r, a = .findReply source r) ∨
      (∃ source r, a = .findHandler source r) ∨ ∃ source r handler, a = .runHandler source r handler
  · obtain ⟨source, r, rfl⟩ | ⟨source, r, rfl⟩ | ⟨source, r, handler, rfl⟩ := hserves
    · simp only [Action.run]
      split
      · exact Nat.zero_le _
      · rename_i hnone
        have hmiss : r.key = key → bus.replyCache.lookup key = none := fun hkey => hkey ▸ hnone
        by_cases hkey : r.key = key
        · simp [serving, caching, misses, hkey, hmiss hkey]
        · simp [serving, caching, hkey]
    · simp only [Action.run]
      split <;> simp [serving, caching]
    · simp [Action.run, serving, caching]
  · have hzero : ∀ b ∈ (Action.run env a bus).next, serving key b = 0 ∧ caching key b = 0 :=
      fun b hb => (serving_asked (Action.asks_of_mem hb)).resolve_right hserves
    rw [Threads.sum_eq_zero_of_mem fun b hb => (hzero b hb).1,
      Threads.sum_eq_zero_of_mem fun b hb => (hzero b hb).2]
    exact Nat.zero_le _

/-! ### The entry of a request -/

/-- A run of the handler for a request. -/
def HandlerRun (key : UInt64) (e : BusEvent) : Prop :=
  ∃ source r handler, e.action = .runHandler source r handler ∧ r.key = key

/-- The response of a request is entered into the cache. -/
def Caches (key : UInt64) (e : BusEvent) : Prop :=
  ∃ source r response, e.action = .cacheReply source r response ∧ r.key = key

/-- The entry of a request was made and, at least the time to live later, removed. -/
def Expired (key : UInt64) (log : List BusEvent) : Prop :=
  ∃ recent expiry between cached older,
    log = recent ++ expiry :: (between ++ cached :: older) ∧ expiry.action = .expireReplyCache ∧
      Caches key cached ∧ MessageBus.replyCacheTtl ≤ expiry.input.now - cached.input.now

/-- The cache has the entry that was made. -/
def Cached (key : UInt64) (log : List BusEvent) (s : BusThreads) : Prop :=
  ∃ recent cached older entry, log = recent ++ cached :: older ∧ Caches key cached ∧
    s.shared.replyCache.lookup key = some entry ∧ entry.cachedAt = cached.input.now

/-- What has become of a request since its handler ran. -/
def Served (key : UInt64) (log : List BusEvent) (s : BusThreads) : Prop :=
  Expired key log ∨ 1 ≤ Threads.owed (caching key) s ∨
    (Threads.owed (serving key) s = 0 ∧ Cached key log s)

theorem Expired.cons {log : List BusEvent} (h : Expired key log) (e : BusEvent) :
    Expired key (e :: log) := by
  obtain ⟨recent, expiry, between, cached, older, rfl, hrest⟩ := h
  exact ⟨e :: recent, expiry, between, cached, older, rfl, hrest⟩

section Step

variable {i : Nat} {env : Env} {a : Action} {rest : List Action}
  (hcall : s.calls[i]? = some (a :: rest))
include hcall

/-- One thread at a time is between lookup and entry. -/
theorem alone_stepped (hcond : Separate s (.step i env))
    (halone : Threads.owed (serving key) s + Threads.owed (caching key) s ≤ 1) :
    Threads.owed (serving key) (s.stepped Action.run i env a rest) +
      Threads.owed (caching key) (s.stepped Action.run i env a rest) ≤ 1 := by
  have hserving := Threads.owed_stepped Action.run (serving key) env hcall
  have hcaching := Threads.owed_stepped Action.run (caching key) env hcall
  have hnext := serving_next key env a s.shared
  by_cases hmiss : misses key s.shared a = 0
  · omega
  · -- A lookup without an entry: no other thread is between lookup and entry.
    cases a with
    | findReply source r =>
        have hkey : r.key = key := by
          by_contra hne
          exact hmiss (if_neg fun h => hne h.1)
        have hquiet := hcond source r rest hcall
        rw [hkey] at hquiet
        have hzero : Threads.owed (serving key) s = 0 :=
          Threads.owed_eq_zero fun j b hwaiting => (hquiet j b hwaiting).1
        have hzero' : Threads.owed (caching key) s = 0 :=
          Threads.owed_eq_zero fun j b hwaiting => (hquiet j b hwaiting).2
        have hone : misses key s.shared (.findReply source r) ≤ 1 := by
          simp only [misses]
          split <;> omega
        have hself : serving key (.findReply source r) = 0 := rfl
        omega
    | _ => exact absurd rfl hmiss

omit hcall in
/-- An entry is made with the time at which it is made. -/
theorem cached_of_cacheReply {log : List BusEvent} {source : Endpoint} {r : DecodeResult}
    {response : Bytes} (hkey : r.key = key) :
    Cached key (⟨i, s.shared, env, .cacheReply source r response⟩ :: log)
      (s.stepped Action.run i env (.cacheReply source r response) rest) := by
  subst hkey
  exact ⟨[], _, log, _, rfl, ⟨source, r, response, rfl, rfl⟩, AList.lookup_insert _, rfl⟩

omit hcall in
/-- An entry stays until it is replaced or expires. -/
theorem cached_stepped {log : List BusEvent} (hcached : Cached key log s) :
    Expired key (⟨i, s.shared, env, a⟩ :: log) ∨
      Cached key (⟨i, s.shared, env, a⟩ :: log) (s.stepped Action.run i env a rest) := by
  obtain ⟨recent, cached, older, entry, rfl, hcaches, hlookup, hmade⟩ := hcached
  have hkept := (Action.run_keeps env a s.shared).replyCache
  have hstays (h : (Action.run env a s.shared).state.replyCache.lookup key = some entry) :
      Cached key (⟨i, s.shared, env, a⟩ :: (recent ++ cached :: older))
        (s.stepped Action.run i env a rest) :=
    ⟨_ :: recent, cached, older, entry, rfl, hcaches, h, hmade⟩
  cases a with
  | cacheReply source r response =>
      by_cases hkey : r.key = key
      · exact Or.inr (cached_of_cacheReply hkey)
      · exact Or.inr (hstays ((AList.lookup_insert_ne (Ne.symm hkey)).trans hlookup))
  | expireReplyCache =>
      have hsweep : (Action.run env .expireReplyCache s.shared).state.replyCache.lookup key = _ :=
        Table.lookup_sweep _ _ _
      rw [hlookup, Option.bind_some] at hsweep
      by_cases hold : MessageBus.replyCacheTtl ≤ env.now - entry.cachedAt
      · refine Or.inl ⟨[], _, recent, cached, older, rfl, rfl, hcaches, ?_⟩
        rw [← hmade]
        exact hold
      · rw [if_neg hold] at hsweep
        exact Or.inr (hstays hsweep)
  | _ =>
      refine Or.inr (hstays ?_)
      rw [hkept rfl]
      exact hlookup

theorem served_stepped {log : List BusEvent}
    (halone : Threads.owed (serving key) s + Threads.owed (caching key) s ≤ 1)
    (hserved : Served key log s) :
    Served key (⟨i, s.shared, env, a⟩ :: log) (s.stepped Action.run i env a rest) := by
  have hserving := Threads.owed_stepped Action.run (serving key) env hcall
  have hcaching := Threads.owed_stepped Action.run (caching key) env hcall
  have hnext := serving_next key env a s.shared
  obtain hexpired | hpending | ⟨hquiet, hcached⟩ := hserved
  · exact Or.inl (hexpired.cons _)
  · by_cases hself : caching key a = 0
    · refine Or.inr (Or.inl ?_)
      omega
    · -- The response is entered now.
      cases a with
      | cacheReply source r response =>
          have hkey : r.key = key := by
            by_contra hne
            exact hself (if_neg hne)
          have hmiss : misses key s.shared (.cacheReply source r response) = 0 := rfl
          have hnone : serving key (.cacheReply source r response) = 0 := rfl
          exact Or.inr (Or.inr ⟨by omega, cached_of_cacheReply hkey⟩)
      | _ => exact absurd rfl hself
  · have hhit : misses key s.shared a = 0 := by
      obtain ⟨_, _, _, entry, _, _, hlookup, _⟩ := hcached
      cases a with
      | findReply source r =>
          refine if_neg fun h => ?_
          rw [hlookup] at h
          cases h.2
      | _ => rfl
    obtain hexpired | hstays : _ ∨ Cached key _ (s.stepped Action.run i env a rest) :=
      cached_stepped hcached
    · exact Or.inl hexpired
    · have hself : serving key a ≤ Threads.owed (serving key) s :=
        (Threads.waiting_head hcall).le_owed
      exact Or.inr (Or.inr ⟨by omega, hstays⟩)

end Step

/-! ### Runs -/

theorem owed_entry (s : BusThreads) (key : UInt64) {actions : List Action}
    (hentry : Entry actions) :
    Threads.owed (serving key) { s with calls := s.calls ++ [actions] } =
      Threads.owed (serving key) s ∧
    Threads.owed (caching key) { s with calls := s.calls ++ [actions] } =
      Threads.owed (caching key) s := by
  obtain ⟨call, rfl⟩ := hentry
  rw [Threads.owed_start, Threads.owed_start]
  cases call <;> exact ⟨rfl, rfl⟩

/-- Since its handler ran, a request has a thread that enters the response, or an entry, or
its entry has expired. -/
theorem served (h : (system.restrict Separate).Reachable s) (key : UInt64) :
    Threads.owed (serving key) s + Threads.owed (caching key) s ≤ 1 ∧
      ∀ log e pre, s.log = log ++ e :: pre → HandlerRun key e → Served key log s := by
  refine Threads.invariant (motive := fun s =>
    Threads.owed (serving key) s + Threads.owed (caching key) s ≤ 1 ∧
      ∀ log e pre, s.log = log ++ e :: pre → HandlerRun key e → Served key log s) h ?_ ?_ ?_
  · intro s _ hcalls hlog
    refine ⟨by simp [Threads.owed, hcalls], ?_⟩
    intro log e pre hsplit
    rw [hlog] at hsplit
    exact absurd hsplit.symm (by simp)
  · intro s actions _ hinv hentry _
    obtain ⟨hserving, hcaching⟩ := owed_entry s key hentry
    refine ⟨by rw [hserving, hcaching]; exact hinv.1, ?_⟩
    intro log e pre hsplit hrun
    have hserved := hinv.2 log e pre hsplit hrun
    rw [Served, ← hserving, ← hcaching] at hserved
    exact hserved
  · intro s i env a rest _ hinv hcall hcond
    refine ⟨alone_stepped hcall hcond hinv.1, ?_⟩
    intro log e pre hsplit hrun
    cases log with
    | nil =>
        obtain ⟨rfl, rfl⟩ := List.cons.inj hsplit
        obtain ⟨source, r, handler, rfl, rfl⟩ := hrun
        have hnext : Action.cacheReply source r (env.invoke handler (Action.request r)) ∈
          (Action.run env (.runHandler source r handler) s.shared).next :=
        List.mem_singleton.mpr rfl
        have hone : caching r.key (.cacheReply source r (env.invoke handler (Action.request r))) =
          1 := if_pos rfl
        refine Or.inr (Or.inl ?_)
        rw [← hone]
        exact (Threads.waiting_next hcall hnext).le_owed
    | cons first log =>
        obtain ⟨rfl, hold⟩ := List.cons.inj hsplit
        exact served_stepped hcall hinv.1 (hinv.2 log e pre hold hrun)

/-- If the lookup, the run and the entry of a request are not interleaved with those of another
thread, its handler runs again only after its entry in the cache has expired. -/
theorem handler_runs_again_after_expiry (h : (system.restrict Separate).Reachable s)
    {post mid pre : List BusEvent} {again first : BusEvent}
    (hlog : s.log = post ++ again :: (mid ++ first :: pre))
    {source source' : Endpoint} {r r' : DecodeResult} {handler handler' : Nat}
    (hfirst : first.action = .runHandler source r handler)
    (hagain : again.action = .runHandler source' r' handler')
    (hsource : r'.header.sourceId = r.header.sourceId)
    (hcorr : r'.header.correlationId = r.header.correlationId) :
    ∃ (recent between older : List BusEvent) (expiry cached : BusEvent) (ep : Endpoint)
      (made : DecodeResult) (response : Bytes),
      mid = recent ++ expiry :: (between ++ cached :: older) ∧
      expiry.action = .expireReplyCache ∧ cached.action = .cacheReply ep made response ∧
      made.header.sourceId = r.header.sourceId ∧
      made.header.correlationId = r.header.correlationId ∧
      MessageBus.replyCacheTtl ≤ expiry.input.now - cached.input.now := by
  have hkey : r'.key = r.key := by
    rw [MessageCodec.DecodeResult.key, hsource, hcorr]
    rfl
  obtain ⟨t, rest, hreach, htlog, _, hcall, _⟩ := Threads.event_origin h hlog
  obtain ⟨halone, hserved⟩ := served hreach r.key
  rw [hagain] at hcall
  have hone : serving r.key (.runHandler source' r' handler') = 1 := if_pos hkey
  have hserving : serving r.key (.runHandler source' r' handler') ≤
    Threads.owed (serving r.key) t := (Threads.waiting_head hcall).le_owed
  obtain hexpired | hcaching | ⟨hquiet, _⟩ :=
    hserved mid first pre htlog ⟨source, r, handler, hfirst, rfl⟩
  · obtain ⟨recent, expiry, between, cached, older, hmid, hexpiry,
      ⟨ep, made, response, hmade, hkey⟩, hold⟩ := hexpired
    obtain ⟨hsame, hsame'⟩ := MessageBus.replyKey_inj hkey
    exact ⟨recent, between, older, expiry, cached, ep, made, response, hmid, hexpiry, hmade, hsame,
      hsame', hold⟩
  · omega
  · omega

/-! ### A request that is served twice -/

/-- The handler runs for a request. -/
def runsFor (sourceId : UInt16) (corrId : UInt32) (e : BusEvent) : Bool :=
  match e.action with
  | .runHandler _ r _ =>
      decide (r.header.sourceId = sourceId ∧ r.header.correlationId = corrId)
  | _ => false

/-- How often the handler has run for a request. -/
def handlerRuns (sourceId : UInt16) (corrId : UInt32) (log : List BusEvent) : Nat :=
  log.countP (runsFor sourceId corrId)

theorem exists_of_runsFor {sourceId : UInt16} {corrId : UInt32} {e : BusEvent}
    (h : runsFor sourceId corrId e = true) :
    ∃ source r handler, e.action = .runHandler source r handler ∧
      r.header.sourceId = sourceId ∧ r.header.correlationId = corrId := by
  unfold runsFor at h
  split at h
  · rename_i source r handler haction
    exact ⟨source, r, handler, haction, of_decide_eq_true h⟩
  · exact absurd h Bool.false_ne_true

/-- A node that asks for the service of another, and will wait for a minute. -/
def requester : MessageBus :=
  { fresh with nodeId := 5 }.onPeerDiscovered
    { id := 1, name := [], hostName := []
      endpoints := [{ address := [1], port := 7400, transportType := MessageBus.udp }]
      publishedTopics := [], subscribedTopics := [MessageBus.svcPrefix ++ [0x73]] }

def patientCall : MessageBus.Call := .sendRequest [0x73] [42] {} 1 60000

/-- The frame that a transmission of the request puts on the wire. -/
def requestFrame (seqId : UInt32) : Bytes :=
  MessageCodec.encode (requester.requestArgs [0x73] [42] {} 1 seqId) 0

/-- The endpoint that the provider sees the requester at. -/
def requesterEndpoint : Endpoint :=
  { address := [5], port := 7400, transportType := MessageBus.udp }

/-- A frame of the request arrives. -/
def arrival (seqId : UInt32) : Move := .begin (.received requesterEndpoint (requestFrame seqId))

/-- The first frame is served, its entry expires, and a repetition arrives. -/
def expiredMoves : List Move :=
  List.flatten
    [[.begin (.createReplier [0x73] 9), .go 0 (clock 0), arrival 1], Move.run 6 1 (clock 0),
      [.begin .tick], Move.run 6 2 (clock 30000000000),
      [arrival 2], Move.run 4 3 (clock 31000000000)]

/-- Two threads receive the first frame and a repetition. -/
def overlappingMoves : List Move :=
  List.flatten
    [[.begin (.createReplier [0x73] 9), .go 0 (clock 0), arrival 1, arrival 2],
      Move.run 3 1 (clock 0), Move.run 3 2 (clock 0), [.go 1 (clock 0), .go 2 (clock 0)]]

/-- A test for `Separate`. -/
def separateCheck (s : BusThreads) : Threads.Label Env Action → Bool
  | .start _ => true
  | .step i _ =>
      match s.calls[i]? with
      | some (.findReply _ r :: _) => s.calls.all fun call => call.all fun a =>
          decide (serving r.key a = 0 ∧ caching r.key a = 0)
      | _ => true

theorem separate_of_check (s : BusThreads) (l : Threads.Label Env Action)
    (h : separateCheck s l = true) : Separate s l := by
  cases l with
  | start actions => exact trivial
  | step i env =>
      intro source r rest hcall j a hwaiting
      obtain ⟨call, hj, hmem⟩ := hwaiting
      simp only [separateCheck, hcall, List.all_eq_true, decide_eq_true_eq] at h
      exact h call (List.mem_of_getElem? hj) a hmem

theorem expired_reachable : (system.restrict Separate).Reachable (after fresh expiredMoves) :=
  after_reachable initial_fresh (by decide +kernel)
    (Threads.along_of_checks separate_of_check (by decide +kernel))

/-- Two runs of the handler, the later one first. -/
theorem split_of_two_runs {sourceId : UInt16} {corrId : UInt32} {log : List BusEvent}
    (h : 2 ≤ handlerRuns sourceId corrId log) :
    ∃ post again mid first pre, log = post ++ again :: (mid ++ first :: pre) ∧
      runsFor sourceId corrId again = true ∧ runsFor sourceId corrId first = true := by
  induction log with
  | nil => exact absurd h (Nat.not_succ_le_zero 1)
  | cons e log ih =>
      simp only [handlerRuns, List.countP_cons] at h ih
      by_cases hruns : runsFor sourceId corrId e = true
      · rw [if_pos hruns] at h
        obtain ⟨first, hmem, hfirst⟩ := List.countP_pos_iff.mp (Nat.le_of_succ_le_succ h)
        obtain ⟨mid, pre, rfl⟩ := List.append_of_mem hmem
        exact ⟨[], e, mid, first, pre, rfl, hruns, hfirst⟩
      · rw [if_neg hruns] at h
        obtain ⟨post, again, mid, first, pre, rfl, hrest⟩ := ih h
        exact ⟨e :: post, again, mid, first, pre, rfl, hrest⟩

theorem handler_runs_again_after_expiry_expired :
    ∃ expiry ∈ (after fresh expiredMoves).log, ∃ cached ∈ (after fresh expiredMoves).log,
      expiry.action = .expireReplyCache ∧
      MessageBus.replyCacheTtl ≤ expiry.input.now - cached.input.now := by
  have htwo : 2 ≤ handlerRuns 5 1 (after fresh expiredMoves).log := by decide +kernel
  obtain ⟨post, again, mid, first, pre, hlog, hagain, hfirst⟩ := split_of_two_runs htwo
  obtain ⟨source, r, handler, hrun, hsource, hcorr⟩ := exists_of_runsFor hfirst
  obtain ⟨source', r', handler', hrun', hsource', hcorr'⟩ := exists_of_runsFor hagain
  obtain ⟨_, _, _, expiry, cached, _, _, _, rfl, hexpiry, _, _, _, hold⟩ :=
    handler_runs_again_after_expiry expired_reachable hlog hrun hrun'
      (hsource'.trans hsource.symm) (hcorr'.trans hcorr.symm)
  refine ⟨expiry, ?_, cached, ?_, hexpiry, hold⟩
  · rw [hlog]
    simp
  · rw [hlog]
    simp

/-- A request that waits for a minute is served twice by one node: after its entry has
expired, or by two threads at a time. -/
theorem handler_runs_twice :
    (∃ n ep, .frame n ep [requestFrame 1] ∈ (requester.exec (clock 0) patientCall).2) ∧
    (∃ n ep, .frame n ep [requestFrame 2] ∈
      ((requester.exec (clock 0) patientCall).1.exec (clock 31000000000) .tick).2) ∧
    (system.Reachable (after fresh expiredMoves) ∧
      handlerRuns 5 1 (after fresh expiredMoves).log = 2) ∧
    (system.Reachable (after fresh overlappingMoves) ∧
      handlerRuns 5 1 (after fresh overlappingMoves).log = 2) := by
  have hoverlapping : (system.restrict fun _ _ => True).Reachable (after fresh overlappingMoves) :=
    after_reachable initial_fresh (by decide +kernel) (Threads.along_true _)
  exact ⟨⟨1, { address := [1], port := 7400, transportType := MessageBus.udp }, by decide +kernel⟩,
    ⟨2, { address := [1], port := 7400, transportType := MessageBus.udp }, by decide +kernel⟩,
    ⟨expired_reachable.of_restrict, by decide +kernel⟩,
    ⟨hoverlapping.of_restrict, by decide +kernel⟩⟩

end BusThreads

end EmbedMq
