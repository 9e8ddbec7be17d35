import EmbedMq.Bus.Replies

/-!
# The deadline of a request

`sendRequest` adds one to `maxRetries` in 32 bits, multiplies in 64, takes the product as a signed
count of milliseconds and adds it to the clock as nanoseconds. The settings that mean "retry for
ever" are where this overflows.
-/

namespace EmbedMq

namespace Env

variable {env : Env}

theorem int64_of_fits {n : Int} (h : -2 ^ 63 ≤ n ∧ n < 2 ^ 63) : env.int64 n = n := if_pos h

/-- A result is what it should be, or whatever an overflow yields. -/
theorem int64_cases (env : Env) (n : Int) :
    env.int64 n = n ∧ (-2 ^ 63 ≤ n ∧ n < 2 ^ 63) ∨ env.int64 n = env.overflow n := by
  rw [int64]
  split
  · exact .inl ⟨rfl, ‹_›⟩
  · exact .inr rfl

end Env

namespace MessageBus

/-- The exact time that a profile leaves for a request, in milliseconds. -/
def patience (qos : QoSProfile) : Nat := qos.ackTimeoutMs.toNat * (qos.maxRetries.toNat + 1)

/-- The bus after some calls. -/
def execAll (calls : List (Env × Call)) (bus : MessageBus) : MessageBus :=
  calls.foldl (fun bus call => (bus.exec call.1 call.2).1) bus

/-- The call makes no entry for this correlation id. -/
def Call.Spares (corrId : UInt32) (call : Call) : Prop :=
  ∀ service payload qos timeout, call ≠ .sendRequest service payload qos corrId timeout

/-- The timeout is the exact product; for a request that was sent at this time, the deadline of the
entry leaves `ackTimeoutMs`, and the periodic task does not expire it before that, whatever the bus
does in between. -/
structure DeadlineKept (now : Int) (qos : QoSProfile) (timeoutOverride : Int) : Prop where
  timeout : (requestTimeoutMs qos timeoutOverride).toNat = patience qos
  deadline : ∀ (env : Env) (bus : MessageBus) (service payload : Bytes) (corrId : UInt32)
    (pr : PendingRequest), env.now = now → bus.serviceHandlers.lookup service = none →
      (bus.sendRequest env service payload qos corrId timeoutOverride).1.pendingRequests.lookup
        corrId = some pr →
      now + qos.ackTimeoutMs.toNat * millisecond ≤ pr.deadline
  expiry : ∀ (env : Env) (bus : MessageBus) (service payload : Bytes) (corrId : UInt32)
    (calls : List (Env × Call)) (later : Env), env.now = now →
      bus.serviceHandlers.lookup service = none → (∀ call ∈ calls, call.2.Spares corrId) →
      corrId ∈ expiredRequests later
        (execAll calls (bus.sendRequest env service payload qos corrId timeoutOverride).1) →
      now + qos.ackTimeoutMs.toNat * millisecond ≤ later.now

section

variable {env : Env} {bus : MessageBus} {corrId : UInt32} {pr : PendingRequest}

theorem deadline_le_of_expired (hexpired : corrId ∈ expiredRequests env bus) :
    ∃ pr, bus.pendingRequests.lookup corrId = some pr ∧ pr.deadline ≤ env.now :=
  (Table.mem_selected (p := fun pr : PendingRequest => pr.deadline ≤ env.now)).mp hexpired

/-- The entry of a request keeps its deadline. -/
theorem execAll_deadline {calls : List (Env × Call)}
    (hspares : ∀ call ∈ calls, call.2.Spares corrId)
    (h : (execAll calls bus).pendingRequests.lookup corrId = some pr) :
    ∃ old, bus.pendingRequests.lookup corrId = some old ∧ pr.deadline = old.deadline := by
  induction calls generalizing bus with
  | nil => exact ⟨pr, h, rfl⟩
  | cons call rest ih =>
      obtain ⟨old, hold, hdeadline⟩ := ih (fun c hc => hspares c (.tail _ hc)) h
      obtain ⟨first, hfirst, -, -, -, hsame⟩ | ⟨service, payload, qos, timeout, hcall, -⟩ :=
        exec_pendingRequests hold
      · exact ⟨first, hfirst, hdeadline.trans hsame⟩
      · exact absurd hcall (hspares call (.head _) service payload qos timeout)

variable {service payload : Bytes} {qos : QoSProfile} {timeoutOverride : Int}

/-- The entry that is there after `sendRequest` is the one it has made. -/
theorem sendRequest_entry (hremote : bus.serviceHandlers.lookup service = none)
    (h : (bus.sendRequest env service payload qos corrId timeoutOverride).1.pendingRequests.lookup
      corrId = some pr) :
    pr.deadline = requestDeadline env (requestTimeoutMs qos timeoutOverride) := by
  simp only [sendRequest, hremote] at h
  let made := pendingRequest env service payload qos corrId timeoutOverride
  obtain ⟨n, hshape⟩ := dispatchRequest_shape env
    { bus with pendingRequests := bus.pendingRequests.insert corrId made } service payload qos
    corrId
  rw [hshape] at h
  split at h
  · rw [AList.lookup_erase] at h
    cases h
  · rw [AList.lookup_insert] at h
    rw [← Option.some.inj h]
    rfl

/-- A bus on which a transport is active keeps the entry. -/
theorem sendRequest_keeps (hremote : bus.serviceHandlers.lookup service = none)
    (hactive : env.active udp = true) :
    (bus.sendRequest env service payload qos corrId timeoutOverride).1.pendingRequests.lookup
      corrId = some (pendingRequest env service payload qos corrId timeoutOverride) := by
  simp only [sendRequest, hremote, hactive, Bool.true_or, Bool.not_true, Bool.and_false,
    Bool.false_eq_true, if_false]
  let made := pendingRequest env service payload qos corrId timeoutOverride
  obtain ⟨n, hshape⟩ := dispatchRequest_shape env
    { bus with pendingRequests := bus.pendingRequests.insert corrId made } service payload qos
    corrId
  rw [hshape]
  exact AList.lookup_insert _

theorem requestTimeoutMs_toNat (hack : 0 < qos.ackTimeoutMs) (hcaller : timeoutOverride ≤ 0) :
    (requestTimeoutMs qos timeoutOverride).toNat =
      qos.ackTimeoutMs.toNat * (qos.maxRetries + 1).toNat := by
  have hne : qos.ackTimeoutMs ≠ 0 := by
    rintro hzero
    rw [hzero] at hack
    exact absurd hack (by decide)
  rw [requestTimeoutMs, if_neg (by omega), if_pos hne, UInt64.toNat_mul, UInt32.toNat_toUInt64,
    UInt32.toNat_toUInt64]
  have hack' := qos.ackTimeoutMs.toNat_lt
  have hretries := (qos.maxRetries + 1).toNat_lt
  refine Nat.mod_eq_of_lt (Nat.lt_of_le_of_lt (Nat.mul_le_mul (Nat.le_pred_of_lt hack')
    (Nat.le_pred_of_lt hretries)) (by decide))

theorem attempts_toNat :
    (qos.maxRetries + 1).toNat =
      if qos.maxRetries = 0xFFFFFFFF then 0 else qos.maxRetries.toNat + 1 := by
  rw [UInt32.toNat_add]
  split
  · rename_i heq
    rw [heq]
    rfl
  · rename_i hne
    have hlt := qos.maxRetries.toNat_lt
    have hmax : qos.maxRetries.toNat ≠ 2 ^ 32 - 1 := fun heq => hne (UInt32.toNat_inj.mp heq)
    exact Nat.mod_eq_of_lt (by change qos.maxRetries.toNat + 1 < 2 ^ 32; omega)

/-- The product is exact unless the number of attempts wraps to zero. -/
theorem timeout_exact_iff (hack : 0 < qos.ackTimeoutMs) (hcaller : timeoutOverride ≤ 0) :
    (requestTimeoutMs qos timeoutOverride).toNat = patience qos ↔
      qos.maxRetries ≠ 0xFFFFFFFF := by
  have hpositive : 0 < qos.ackTimeoutMs.toNat := UInt32.lt_iff_toNat_lt.mp hack
  rw [requestTimeoutMs_toNat hack hcaller, attempts_toNat, patience]
  split
  · rename_i heq
    have hproduct : 0 < qos.ackTimeoutMs.toNat * (qos.maxRetries.toNat + 1) :=
      Nat.mul_pos hpositive (Nat.succ_pos _)
    exact ⟨fun h => absurd h (Nat.ne_of_lt hproduct), fun hne => absurd heq hne⟩
  · rename_i hne
    exact ⟨fun _ => hne, fun _ => rfl⟩

/-- A count of milliseconds that is not too large is the number it was made from. -/
theorem count_eq {timeoutMs : UInt64} (h : timeoutMs.toNat < 2 ^ 63) :
    timeoutMs.toBitVec.toInt = timeoutMs.toNat := by
  have hcond := timeoutMs.toBitVec.toInt_eq_toNat_cond
  rw [UInt64.toNat_toBitVec] at hcond
  split at hcond <;> omega

/-- One that is too large is negative. -/
theorem count_neg {timeoutMs : UInt64} (h : ¬ timeoutMs.toNat < 2 ^ 63) :
    timeoutMs.toBitVec.toInt < 0 := by
  have hcond := timeoutMs.toBitVec.toInt_eq_toNat_cond
  have hlt := timeoutMs.toNat_lt
  rw [UInt64.toNat_toBitVec] at hcond
  split at hcond <;> omega

theorem requestDeadline_exact {timeoutMs : UInt64} (hnow : 0 ≤ env.now)
    (h : env.now + timeoutMs.toNat * millisecond < 2 ^ 63) :
    requestDeadline env timeoutMs = env.now + timeoutMs.toNat * millisecond := by
  rw [millisecond] at h
  have hcount : timeoutMs.toBitVec.toInt = timeoutMs.toNat := count_eq (by omega)
  rw [requestDeadline, hcount, millisecond, Env.int64_of_fits (n := timeoutMs.toNat * 1000000)]
  · exact Env.int64_of_fits (by omega)
  · omega

/-- Where an overflow yields the least number, a deadline that does not fit is in the past. -/
theorem requestDeadline_lt {timeoutMs : UInt64} (hnow : 0 ≤ env.now)
    (hoverflow : ∀ n, env.overflow n = -2 ^ 63)
    (h : ¬ env.now + timeoutMs.toNat * millisecond < 2 ^ 63) :
    requestDeadline env timeoutMs < env.now := by
  rw [millisecond] at h
  have hproduct : env.int64 (timeoutMs.toBitVec.toInt * millisecond) < 0 ∨
      2 ^ 63 ≤ env.now + env.int64 (timeoutMs.toBitVec.toInt * millisecond) := by
    rw [millisecond]
    obtain ⟨heq, hfits⟩ | heq := Env.int64_cases env (timeoutMs.toBitVec.toInt * 1000000)
    · rw [heq]
      by_cases hlt : timeoutMs.toNat < 2 ^ 63
      · rw [count_eq hlt]
        omega
      · have hneg := count_neg hlt
        omega
    · rw [heq, hoverflow]
      omega
  rw [requestDeadline]
  obtain ⟨heq, hfits⟩ | heq := Env.int64_cases env
    (env.now + env.int64 (timeoutMs.toBitVec.toInt * millisecond))
  · rw [heq]
    omega
  · rw [heq, hoverflow]
    omega

/-- The timeout and the deadline are right exactly when the number of attempts does not wrap and the
deadline is within the range of the clock. -/
theorem deadlineKept_iff {now : Int} (hnow : 0 ≤ now) (hack : 0 < qos.ackTimeoutMs)
    (hcaller : timeoutOverride ≤ 0) :
    DeadlineKept now qos timeoutOverride ↔
      qos.maxRetries ≠ 0xFFFFFFFF ∧ now + patience qos * millisecond < 2 ^ 63 := by
  have hexact := timeout_exact_iff hack hcaller
  constructor
  · rintro ⟨htimeout, hdeadline, -⟩
    refine ⟨hexact.mp htimeout, ?_⟩
    by_contra hrange
    -- An overflow may yield anything, so also a time that has passed.
    let env : Env :=
      { now := now, sent := fun _ => 0, stamp := fun _ => 0, active := fun _ => true,
        invoke := fun _ _ => [], overflow := fun _ => -2 ^ 63 }
    have hkept := hdeadline env { nodeId := 0, localHostName := [] } [] [] 0 _ rfl rfl
      (sendRequest_keeps rfl rfl)
    have hpast : requestDeadline env (requestTimeoutMs qos timeoutOverride) < now :=
      requestDeadline_lt hnow (fun _ => rfl) (htimeout ▸ hrange)
    rw [millisecond] at hkept
    exact absurd (hkept.trans_lt hpast) (by omega)
  · rintro ⟨hretries, hrange⟩
    have htimeout := hexact.mpr hretries
    have hack_le : qos.ackTimeoutMs.toNat ≤ patience qos :=
      Nat.le_mul_of_pos_right _ (Nat.succ_pos _)
    have hkept : ∀ env : Env, env.now = now → now + qos.ackTimeoutMs.toNat * millisecond ≤
        requestDeadline env (requestTimeoutMs qos timeoutOverride) := by
      rintro env rfl
      rw [requestDeadline_exact hnow (htimeout ▸ hrange), htimeout, millisecond]
      omega
    refine ⟨htimeout, fun env bus service payload corrId pr hsent hremote hpr => ?_,
      fun env bus service payload corrId calls later hsent hremote hspares hexpired => ?_⟩
    · rw [sendRequest_entry hremote hpr]
      exact hkept env hsent
    · obtain ⟨pr, hpr, hle⟩ := deadline_le_of_expired hexpired
      obtain ⟨old, hold, hsame⟩ := execAll_deadline hspares hpr
      rw [hsame, sendRequest_entry hremote hold] at hle
      exact (hkept env hsent).trans hle

theorem deadlineKept_default :
    DeadlineKept 0 {} 0 ↔ ({} : QoSProfile).maxRetries ≠ 0xFFFFFFFF ∧
      (0 : Int) + patience {} * millisecond < 2 ^ 63 :=
  deadlineKept_iff (Int.le_refl 0) (by decide) (Int.le_refl 0)

/-- A request that is to be repeated for ever is expired at once. -/
theorem deadlineKept_forever :
    ¬∀ (now : Int) (qos : QoSProfile) (timeoutOverride : Int), 0 ≤ now → now < 2 ^ 63 →
      0 < qos.ackTimeoutMs → timeoutOverride ≤ 0 → DeadlineKept now qos timeoutOverride := by
  intro hclaim
  have hkept := hclaim 0 { maxRetries := 0xFFFFFFFF } 0 (by decide) (by decide) (by decide)
    (by decide)
  exact absurd hkept.timeout (by decide)

end

end MessageBus

end EmbedMq
