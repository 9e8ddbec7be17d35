import EmbedMq.Concurrent.Steps

/-!
# Repetitions after an answer

A reliable frame is sent first and registered for repetition afterwards, and so is a
PUBREL. If the answer is processed between the two, the registration comes too late to
be cancelled. As long as no answer overtakes a registration, a frame that is repeated
after an answer with its number was first sent after the answer; and as long as a late
PUBREC does not follow a PUBCOMP for the same frame, the same is true of a PUBREL.
-/

namespace EmbedMq

open MessageCodec (DecodeResult)

/-- A sweep keeps what an entry repeats. -/
theorem QoSEngine.swept {t : Table UInt32 PendingMsg} {now : Int} {sent : UInt32 → Int}
    {q : UInt32} {pm : PendingMsg} (h : (t.lookup q).bind (sweepEntry now sent) = some pm) :
    ∃ old, t.lookup q = some old ∧ resendOf pm = resendOf old := by
  obtain ⟨old, hold, hentry⟩ := Option.bind_eq_some_iff.mp h
  refine ⟨old, hold, ?_⟩
  unfold sweepEntry at hentry
  split at hentry
  · split at hentry
    · cases hentry
    · rw [← Option.some.inj hentry]
      rfl
  · rw [← Option.some.inj hentry]

namespace Action

variable {env : Env} {bus : MessageBus} {a : Action} {q : UInt32}

/-! ### One action -/

/-- What an action makes of an entry for repetition. -/
theorem lookup_pending {pm : PendingMsg}
    (h : (run env a bus).state.qosEngine.pending.lookup q = some pm) :
    (∃ old, bus.qosEngine.pending.lookup q = some old ∧
      QoSEngine.resendOf pm = QoSEngine.resendOf old) ∨
    ∃ data qos dest, a = .addPending q data qos dest ∧ QoSEngine.resendOf pm = ⟨q, dest, data⟩ := by
  have hkept := (run_keeps env a bus).pending
  cases a with
  | addPending seqId data qos dest =>
      have hlookup :=
        (QoSEngine.lookup_addPending bus.qosEngine seqId q data qos dest _).symm.trans h
      by_cases hq : q = seqId
      · subst hq
        rw [if_pos rfl] at hlookup
        exact Or.inr ⟨data, qos, dest, rfl, by rw [← Option.some.inj hlookup]; rfl⟩
      · rw [if_neg hq] at hlookup
        exact Or.inl ⟨pm, hlookup, rfl⟩
  | onAck seqId =>
      have hlookup := (QoSEngine.lookup_onAck bus.qosEngine seqId q).symm.trans h
      split at hlookup
      · cases hlookup
      · exact Or.inl ⟨pm, hlookup, rfl⟩
  | onPubrec source seqId =>
      have hlookup := (QoSEngine.lookup_onPubrec bus.qosEngine seqId q).symm.trans h
      split at hlookup
      · cases hlookup
      · exact Or.inl ⟨pm, hlookup, rfl⟩
  | onNack seqId =>
      simp only [run, QoSEngine.onNack] at h
      split at h
      · rename_i old hold
        have hlookup := (Table.lookup_insert_eq _ q seqId _).symm.trans h
        by_cases hq : q = seqId
        · subst hq
          rw [if_pos rfl] at hlookup
          exact Or.inl ⟨old, hold, by rw [← Option.some.inj hlookup]; rfl⟩
        · rw [if_neg hq] at hlookup
          exact Or.inl ⟨pm, hlookup, rfl⟩
      · exact Or.inl ⟨pm, h, rfl⟩
  | processTimeouts =>
      have hlookup := (QoSEngine.lookup_sweep q env.now env.sent bus.qosEngine.pending).symm.trans h
      exact Or.inl (QoSEngine.swept hlookup)
  | _ =>
      rw [hkept rfl] at h
      exact Or.inl ⟨pm, h, rfl⟩

/-- What an action makes of an entry for the repetition of a PUBREL. -/
theorem lookup_pendingRel {pm : PendingMsg}
    (h : (run env a bus).state.qosEngine.pendingRel.lookup q = some pm) :
    (∃ old, bus.qosEngine.pendingRel.lookup q = some old ∧
      QoSEngine.resendOf pm = QoSEngine.resendOf old) ∨
    ∃ data dest, a = .addPendingRel q data dest ∧ QoSEngine.resendOf pm = ⟨q, dest, data⟩ := by
  have hkept := (run_keeps env a bus).pendingRel
  cases a with
  | addPendingRel seqId data dest =>
      have hlookup :=
        (QoSEngine.lookup_addPendingRel bus.qosEngine seqId q data _ dest _).symm.trans h
      by_cases hq : q = seqId
      · subst hq
        rw [if_pos rfl] at hlookup
        exact Or.inr ⟨data, dest, rfl, by rw [← Option.some.inj hlookup]; rfl⟩
      · rw [if_neg hq] at hlookup
        exact Or.inl ⟨pm, hlookup, rfl⟩
  | onPubcomp seqId =>
      have hlookup := (QoSEngine.lookup_onPubcomp bus.qosEngine seqId q).symm.trans h
      split at hlookup
      · cases hlookup
      · exact Or.inl ⟨pm, hlookup, rfl⟩
  | processTimeouts =>
      have hlookup :=
        (QoSEngine.lookup_sweep q env.now env.sent bus.qosEngine.pendingRel).symm.trans h
      exact Or.inl (QoSEngine.swept hlookup)
  | _ =>
      rw [hkept rfl] at h
      exact Or.inl ⟨pm, h, rfl⟩

/-- A frame takes its number from the counter. -/
theorem frame_mem_effects {n : Nat} {dest : Endpoint} {slices : List Bytes}
    (h : .frame n dest slices ∈ (run env a bus).effects) :
    n = bus.seqCounter ∧ (run env a bus).state.seqCounter = n + 1 := by
  cases emits_of_mem h with
  | frame _ _ _ _ hnext => exact ⟨rfl, hnext⟩

/-- A frame is repeated out of the table. -/
theorem resend_mem_effects {r : Resend} (h : .resend r ∈ (run env a bus).effects) :
    ∃ k pm, bus.qosEngine.pending.lookup k = some pm ∧ r = QoSEngine.resendOf pm := by
  cases emits_of_mem h with
  | nack seqId pm hpm => exact ⟨seqId, pm, hpm, rfl⟩
  | resend seqId pm hpm => exact ⟨seqId, pm, hpm, rfl⟩

theorem resendRel_mem_effects {r : Resend} (h : .resendRel r ∈ (run env a bus).effects) :
    ∃ k pm, bus.qosEngine.pendingRel.lookup k = some pm ∧ r = QoSEngine.resendOf pm := by
  cases emits_of_mem h with
  | resendRel seqId pm hpm => exact ⟨seqId, pm, hpm, rfl⟩

end Action

namespace BusThreads

variable {s : BusThreads} {q : UInt32}

/-! ### Answers and registrations -/

/-- An event that takes a frame out of the table for repetition. -/
def Answers (q : UInt32) (a : Action) : Prop := a = .onAck q ∨ ∃ source, a = .onPubrec source q

/-- A thread that has sent a frame and has not registered it yet. -/
def Registering (q : UInt32) (a : Action) : Prop := ∃ data qos dest, a = .addPending q data qos dest

/-- A thread that has processed a PUBREC and has not registered the PUBREL yet. -/
def Releasing (q : UInt32) (a : Action) : Prop :=
  (∃ source, a = .sendPubrel source q) ∨ ∃ data dest, a = .addPendingRel q data dest

/-- The first transmission of a frame. -/
def FirstSent (q : UInt32) (dest : Endpoint) (data : Bytes) (log : List BusEvent) : Prop :=
  ∃ e ∈ log, ∃ n, .frame n dest [data] ∈ (e.outcome Action.run).effects ∧ UInt32.ofNat n = q

/-- No answer overtakes a registration, and a PUBREC that follows a PUBCOMP is for a frame
that was sent after it. -/
def InOrder (s : BusThreads) : Threads.Label Env Action → Prop
  | .start _ => True
  | .step i _ => ∀ a rest, s.calls[i]? = some (a :: rest) → ∀ q,
      (Answers q a → ∀ j b, s.Waiting j b → ¬ Registering q b) ∧
      (a = .onPubcomp q → ∀ j b, s.Waiting j b → ¬ Releasing q b) ∧
      (∀ source, a = .onPubrec source q → ∀ post e pre, s.log = post ++ e :: pre →
        e.action = .onPubcomp q → ∃ dest data, FirstSent q dest data post)

theorem FirstSent.cons {dest : Endpoint} {data : Bytes} {log : List BusEvent}
    (h : FirstSent q dest data log) (e : BusEvent) : FirstSent q dest data (e :: log) := by
  obtain ⟨e', he', hrest⟩ := h
  exact ⟨e', List.mem_cons_of_mem _ he', hrest⟩

/-- The frames that are in the table, or about to be, since an answer. -/
structure Renewed (q : UInt32) (log : List BusEvent) (s : BusThreads) : Prop where
  pending : ∀ pm, s.shared.qosEngine.pending.lookup q = some pm →
    FirstSent q (QoSEngine.resendOf pm).dest (QoSEngine.resendOf pm).data log
  waiting : ∀ j data qos dest, s.Waiting j (.addPending q data qos dest) → FirstSent q dest data log

/-- The same for a PUBREL since its PUBCOMP. -/
structure RenewedRel (q : UInt32) (log : List BusEvent) (s : BusThreads) : Prop where
  pending : ∀ pm, s.shared.qosEngine.pendingRel.lookup q = some pm →
    ∃ dest data, FirstSent q dest data log
  waiting : ∀ j a, s.Waiting j a → Releasing q a → ∃ dest data, FirstSent q dest data log

section Step

variable {i : Nat} {env : Env} {a : Action} {rest : List Action}
  (hcall : s.calls[i]? = some (a :: rest))
include hcall

theorem renewed_of_answer (hcond : InOrder s (.step i env)) (hanswers : Answers q a) :
    Renewed q [] (s.stepped Action.run i env a rest) := by
  have hquiet := (hcond a rest hcall q).1 hanswers
  refine ⟨fun pm hpm => ?_, fun j data qos dest hwaiting => ?_⟩
  · obtain rfl | ⟨source, rfl⟩ := hanswers
    · have hnone := (QoSEngine.lookup_onAck s.shared.qosEngine q q).symm.trans hpm
      rw [if_pos rfl] at hnone
      cases hnone
    · have hnone := (QoSEngine.lookup_onPubrec s.shared.qosEngine q q).symm.trans hpm
      rw [if_pos rfl] at hnone
      cases hnone
  · obtain ⟨_, hnext⟩ | hold := Threads.waiting_stepped hcall hwaiting
    · obtain rfl | ⟨source, rfl⟩ := hanswers
      · exact absurd hnext List.not_mem_nil
      · cases List.mem_singleton.mp hnext
    · exact absurd ⟨data, qos, dest, rfl⟩ (hquiet j _ hold)

theorem renewed_stepped {log : List BusEvent} (h : Renewed q log s) :
    Renewed q (⟨i, s.shared, env, a⟩ :: log) (s.stepped Action.run i env a rest) := by
  refine ⟨fun pm hpm => ?_, fun j data qos dest hwaiting => ?_⟩
  · obtain ⟨old, hold, hsame⟩ | ⟨data, qos, dest, rfl, hnew⟩ := Action.lookup_pending hpm
    · rw [hsame]
      exact (h.pending old hold).cons _
    · rw [hnew]
      exact (h.waiting i data qos dest (Threads.waiting_head hcall)).cons _
  · obtain ⟨_, hnext⟩ | hold := Threads.waiting_stepped hcall hwaiting
    · cases Action.asks_of_mem hnext with
      | sendTo _ _ _ _ _ _ hframe => exact ⟨_, List.mem_cons_self, _, hframe, rfl⟩
      | sendReply _ _ _ _ _ hframe => exact ⟨_, List.mem_cons_self, _, hframe, rfl⟩
      | receive _ _ _ hb =>
          cases hb with
          | dispatches hb => cases hb
      | isDuplicate _ _ hb => cases hb
    · exact (h.waiting j data qos dest hold).cons _

theorem renewedRel_of_pubcomp (hcond : InOrder s (.step i env)) (hcomp : a = .onPubcomp q) :
    RenewedRel q [] (s.stepped Action.run i env a rest) := by
  have hquiet := (hcond a rest hcall q).2.1 hcomp
  subst hcomp
  refine ⟨fun pm hpm => ?_, fun j b hwaiting hreleasing => ?_⟩
  · have hnone := (QoSEngine.lookup_onPubcomp s.shared.qosEngine q q).symm.trans hpm
    rw [if_pos rfl] at hnone
    cases hnone
  · obtain ⟨_, hnext⟩ | hold := Threads.waiting_stepped hcall hwaiting
    · exact absurd hnext List.not_mem_nil
    · exact absurd hreleasing (hquiet j b hold)

theorem renewedRel_stepped {log : List BusEvent}
    (hpubrec : ∀ source, a = .onPubrec source q → ∃ dest data, FirstSent q dest data log)
    (h : RenewedRel q log s) :
    RenewedRel q (⟨i, s.shared, env, a⟩ :: log) (s.stepped Action.run i env a rest) := by
  have hcons : (∃ dest data, FirstSent q dest data log) →
      ∃ dest data, FirstSent q dest data (⟨i, s.shared, env, a⟩ :: log) := by
    rintro ⟨dest, data, hsent⟩
    exact ⟨dest, data, hsent.cons _⟩
  refine ⟨fun pm hpm => hcons ?_, fun j b hwaiting hreleasing => hcons ?_⟩
  · obtain ⟨old, hold, _⟩ | ⟨data, dest, rfl, _⟩ := Action.lookup_pendingRel hpm
    · exact h.pending old hold
    · exact h.waiting i _ (Threads.waiting_head hcall) (Or.inr ⟨data, dest, rfl⟩)
  · obtain ⟨_, hnext⟩ | hold := Threads.waiting_stepped hcall hwaiting
    · have hasks := Action.asks_of_mem hnext
      obtain ⟨source, rfl⟩ | ⟨data, dest, rfl⟩ := hreleasing
      · cases hasks with
        | onPubrec => exact hpubrec source rfl
        | receive _ _ _ hb =>
            cases hb with
            | dispatches hb => cases hb
        | isDuplicate _ _ hb => cases hb
      · cases hasks with
        | sendPubrel =>
            exact h.waiting i _ (Threads.waiting_head hcall) (Or.inl ⟨_, rfl⟩)
        | receive _ _ _ hb =>
            cases hb with
            | dispatches hb => cases hb
        | isDuplicate _ _ hb => cases hb
    · exact h.waiting j b hold hreleasing

end Step

/-! ### Runs -/

/-- The number under which a frame is registered. -/
theorem seqId_of_pending {cond : BusThreads → Threads.Label Env Action → Prop}
    (h : (system.restrict cond).Reachable s) {pm : PendingMsg} :
    (s.shared.qosEngine.pending.lookup q = some pm → (QoSEngine.resendOf pm).seqId = q) ∧
    (s.shared.qosEngine.pendingRel.lookup q = some pm → (QoSEngine.resendOf pm).seqId = q) := by
  refine Threads.invariant (motive := fun s => ∀ pm,
    (s.shared.qosEngine.pending.lookup q = some pm → (QoSEngine.resendOf pm).seqId = q) ∧
    (s.shared.qosEngine.pendingRel.lookup q = some pm → (QoSEngine.resendOf pm).seqId = q))
    h ?_ ?_ ?_ pm
  · intro s hinit _ _ pm
    rw [hinit]
    exact ⟨by simp, by simp⟩
  · intro s actions _ hinv _ _
    exact hinv
  · intro s i env a rest _ hinv _ _ pm
    constructor
    · intro hpm
      obtain ⟨old, hold, hsame⟩ | ⟨_, _, _, _, hnew⟩ := Action.lookup_pending hpm
      · rw [hsame]
        exact (hinv old).1 hold
      · rw [hnew]
    · intro hpm
      obtain ⟨old, hold, hsame⟩ | ⟨_, _, _, hnew⟩ := Action.lookup_pendingRel hpm
      · rw [hsame]
        exact (hinv old).2 hold
      · rw [hnew]

theorem renewed (h : (system.restrict InOrder).Reachable s) {log pre : List BusEvent}
    {e : BusEvent} (hlog : s.log = log ++ e :: pre) :
    (Answers q e.action → Renewed q log s) ∧ (e.action = .onPubcomp q → RenewedRel q log s) := by
  refine Threads.invariant (motive := fun s => ∀ log, s.log = log ++ e :: pre →
    (Answers q e.action → Renewed q log s) ∧ (e.action = .onPubcomp q → RenewedRel q log s))
    h ?_ ?_ ?_ log hlog
  · intro s _ _ hnil log hlog
    rw [hnil] at hlog
    exact absurd hlog.symm (by simp)
  · intro s actions _ hinv hentry _ log hlog
    obtain ⟨hrenewed, hrenewedRel⟩ := hinv log hlog
    refine ⟨fun hanswers => ⟨(hrenewed hanswers).pending, fun j data qos dest hwaiting => ?_⟩,
      fun hcomp => ⟨(hrenewedRel hcomp).pending, fun j a hwaiting hreleasing => ?_⟩⟩
    · have hold := waiting_of_start hentry hwaiting (by rintro (_ | _) ⟨⟩)
      exact (hrenewed hanswers).waiting j data qos dest hold
    · have hold := waiting_of_start hentry hwaiting (by
        obtain ⟨source, rfl⟩ | ⟨data, dest, rfl⟩ := hreleasing
        · rintro (_ | _) ⟨⟩
        · rintro (_ | _) ⟨⟩)
      exact (hrenewedRel hcomp).waiting j a hold hreleasing
  · intro s i env a rest _ hinv hcall hcond log hlog
    cases log with
    | nil =>
        obtain ⟨rfl, rfl⟩ := List.cons.inj hlog
        exact ⟨renewed_of_answer hcall hcond, renewedRel_of_pubcomp hcall hcond⟩
    | cons first log =>
        obtain ⟨rfl, hold⟩ := List.cons.inj hlog
        obtain ⟨hrenewed, hrenewedRel⟩ := hinv log hold
        refine ⟨fun hanswers => renewed_stepped hcall (hrenewed hanswers), fun hcomp => ?_⟩
        refine renewedRel_stepped hcall (fun source hpubrec => ?_) (hrenewedRel hcomp)
        exact (hcond a rest hcall q).2.2 source hpubrec log e pre hold hcomp

/-! ### Numbers -/

section Numbers

variable {cond : BusThreads → Threads.Label Env Action → Prop}
  (h : (system.restrict cond).Reachable s)
include h

/-- The numbers of all frames that were sent are below the counter. -/
theorem frames_below {e : BusEvent} (he : e ∈ s.log) {n : Nat} {dest : Endpoint}
    {slices : List Bytes} (hframe : .frame n dest slices ∈ (e.outcome Action.run).effects) :
    n < s.shared.seqCounter := by
  refine Threads.invariant (motive := fun s => ∀ e ∈ s.log, ∀ n dest slices,
    .frame n dest slices ∈ (e.outcome Action.run).effects → n < s.shared.seqCounter)
    h ?_ ?_ ?_ e he n dest slices hframe
  · intro s _ _ hnil e he
    rw [hnil] at he
    exact absurd he List.not_mem_nil
  · intro s actions _ hinv _ _
    exact hinv
  · intro s i env a rest _ hinv _ _ e he n dest slices hframe
    obtain rfl | hold := List.mem_cons.mp he
    · exact (Action.frame_mem_effects hframe).2 ▸ Nat.lt_succ_self n
    · exact Nat.lt_of_lt_of_le (hinv e hold n dest slices hframe)
        (Action.seqCounter_le env a s.shared)

/-- A frame has a larger number than every frame that was sent before it. -/
theorem frame_lt {log older : List BusEvent} (hlog : s.log = log ++ older) {e e' : BusEvent}
    (he : e ∈ log) (he' : e' ∈ older) {m n : Nat} {dest dest' : Endpoint}
    {slices slices' : List Bytes} (hframe : .frame n dest slices ∈ (e.outcome Action.run).effects)
    (hframe' : .frame m dest' slices' ∈ (e'.outcome Action.run).effects) : m < n := by
  obtain ⟨post, pre, rfl⟩ := List.append_of_mem he
  rw [List.append_assoc, List.cons_append] at hlog
  obtain ⟨t, _, hreach, htlog, hshared, _⟩ := Threads.event_origin h hlog
  rw [(Action.frame_mem_effects hframe).1, ← hshared]
  exact frames_below hreach (by rw [htlog]; exact List.mem_append_right _ he') hframe'

end Numbers

/-- A frame that was first sent in `log`, with a number above those of all frames in `older`. -/
def Newer (q : UInt32) (dest : Endpoint) (data : Bytes) (log older : List BusEvent) : Prop :=
  ∃ n, UInt32.ofNat n = q ∧ (∃ e ∈ log, .frame n dest [data] ∈ (e.outcome Action.run).effects) ∧
    ∀ e ∈ older, ∀ m dest' slices, .frame m dest' slices ∈ (e.outcome Action.run).effects → m < n

theorem newer_of_firstSent {cond : BusThreads → Threads.Label Env Action → Prop}
    (h : (system.restrict cond).Reachable s) {log older : List BusEvent}
    (hlog : s.log = log ++ older) {dest : Endpoint} {data : Bytes}
    (hsent : FirstSent q dest data log) : Newer q dest data log older := by
  obtain ⟨e, he, n, hframe, hn⟩ := hsent
  exact ⟨n, hn, ⟨e, he, hframe⟩, fun e' he' m dest' slices hframe' =>
    frame_lt h hlog he he' hframe hframe'⟩

/-- If answers and registrations keep their order, a frame that is repeated after an answer with
its number is another frame than those that were sent before the answer; and a PUBREL that is
repeated after a PUBCOMP belongs to such another frame. -/
theorem no_repetition_after_answer (h : (system.restrict InOrder).Reachable s)
    {post mid pre : List BusEvent} {repetition answer : BusEvent}
    (hlog : s.log = post ++ repetition :: (mid ++ answer :: pre)) {r : Resend} :
    (Answers r.seqId answer.action → .resend r ∈ (repetition.outcome Action.run).effects →
      Newer r.seqId r.dest r.data mid (answer :: pre)) ∧
    (answer.action = .onPubcomp r.seqId →
      .resendRel r ∈ (repetition.outcome Action.run).effects →
      ∃ dest data, Newer r.seqId dest data mid (answer :: pre)) := by
  obtain ⟨t, _, hreach, htlog, hshared, _⟩ := Threads.event_origin h hlog
  constructor
  · intro hanswers hresend
    obtain ⟨k, pm, hpm, rfl⟩ := Action.resend_mem_effects hresend
    rw [← hshared] at hpm
    obtain rfl := (seqId_of_pending hreach).1 hpm
    exact newer_of_firstSent hreach htlog (((renewed hreach htlog).1 hanswers).pending pm hpm)
  · intro hcomp hresend
    obtain ⟨k, pm, hpm, rfl⟩ := Action.resendRel_mem_effects hresend
    rw [← hshared] at hpm
    obtain rfl := (seqId_of_pending hreach).2 hpm
    obtain ⟨dest, data, hsent⟩ := ((renewed hreach htlog).2 hcomp).pending pm hpm
    exact ⟨dest, data, newer_of_firstSent hreach htlog hsent⟩

/-! ### An answer that overtakes the registration -/

/-- An event that sends a frame with a number for the first time. -/
def sends (q : UInt32) (e : BusEvent) : Bool :=
  (e.outcome Action.run).effects.any fun
    | .frame n _ _ => decide (UInt32.ofNat n = q)
    | _ => false

def answers (q : UInt32) : Action → Bool
  | .onAck n => decide (n = q)
  | .onPubrec _ n => decide (n = q)
  | _ => false

/-- The repetitions of frames with a number. -/
def repetitions (q : UInt32) (e : BusEvent) : List Resend :=
  (e.outcome Action.run).effects.filterMap fun
    | .resend r => if r.seqId = q then some r else none
    | _ => none

/-- The log has an answer to a frame, and the frame is not sent anew after it. -/
def answeredIn (q : UInt32) : List BusEvent → Bool
  | [] => false
  | e :: older =>
      (answers q e.action && older.any (sends q)) || (!sends q e && answeredIn q older)

/-- The last event repeats a frame that was answered before. -/
def repeatedLate (q : UInt32) : List BusEvent → Bool
  | [] => false
  | e :: older => !(repetitions q e).isEmpty && answeredIn q older

theorem answers_of_check {a : Action} (h : answers q a = true) : Answers q a := by
  unfold answers at h
  split at h
  · exact Or.inl (of_decide_eq_true h ▸ rfl)
  · rename_i source n
    exact Or.inr ⟨source, of_decide_eq_true h ▸ rfl⟩
  · exact absurd h Bool.false_ne_true

theorem exists_of_answeredIn {log : List BusEvent} (h : answeredIn q log = true) :
    ∃ mid answer pre, log = mid ++ answer :: pre ∧ Answers q answer.action ∧
      (∃ e ∈ pre, sends q e = true) ∧ ∀ e ∈ mid, sends q e = false := by
  induction log with
  | nil => exact absurd h Bool.false_ne_true
  | cons e older ih =>
      simp only [answeredIn, Bool.or_eq_true, Bool.and_eq_true, Bool.not_eq_true'] at h
      obtain ⟨hanswers, hsent⟩ | ⟨hquiet, hrest⟩ := h
      · exact ⟨[], e, older, rfl, answers_of_check hanswers, List.any_eq_true.mp hsent,
          fun _ hmem => absurd hmem List.not_mem_nil⟩
      · obtain ⟨mid, answer, pre, rfl, hanswer, hsent, hmid⟩ := ih hrest
        refine ⟨e :: mid, answer, pre, rfl, hanswer, hsent, fun e' hmem => ?_⟩
        obtain rfl | hmem := List.mem_cons.mp hmem
        · exact hquiet
        · exact hmid e' hmem

theorem exists_of_repeatedLate {log : List BusEvent} (h : repeatedLate q log = true) :
    ∃ repetition mid answer pre r, log = repetition :: (mid ++ answer :: pre) ∧
      r.seqId = q ∧ .resend r ∈ (repetition.outcome Action.run).effects ∧
      Answers q answer.action ∧ (∃ e ∈ pre, sends q e = true) ∧ ∀ e ∈ mid, sends q e = false := by
  cases log with
  | nil => exact absurd h Bool.false_ne_true
  | cons e older =>
      obtain ⟨hrepeats, hanswered⟩ := Bool.and_eq_true_iff.mp h
      obtain ⟨mid, answer, pre, rfl, hrest⟩ := exists_of_answeredIn hanswered
      obtain ⟨r, hr⟩ := List.exists_mem_of_ne_nil (repetitions q e) (by simpa using hrepeats)
      obtain ⟨effect, hmem, hresend⟩ := List.mem_filterMap.mp hr
      cases effect with
      | resend r' =>
          obtain ⟨hseq, hsame⟩ := Option.ite_none_right_eq_some.mp hresend
          obtain rfl := Option.some.inj hsame
          exact ⟨e, mid, answer, pre, r', rfl, hseq, hmem, hrest⟩
      | _ => cases hresend

theorem not_newer {mid older : List BusEvent} {dest : Endpoint} {data : Bytes}
    (hquiet : ∀ e ∈ mid, sends q e = false) : ¬ Newer q dest data mid older := by
  rintro ⟨n, hn, ⟨e, he, hframe⟩, _⟩
  have hsends : sends q e = true := List.any_eq_true.mpr ⟨_, hframe, decide_eq_true hn⟩
  rw [hquiet e he] at hsends
  exact absurd hsends Bool.false_ne_true

/-- A subscriber of everything that is published. -/
def subscriber : PeerInfo where
  id := 2
  name := []
  hostName := []
  endpoints := [{ address := [2], port := 7400, transportType := MessageBus.udp }]
  publishedTopics := []
  subscribedTopics := [[0x74]]

/-- The ACK for the first frame. -/
def firstAck : Bytes :=
  MessageCodec.encode ({ fresh with nodeId := 2 }.controlArgs .ack 2) 0

/-- A reliable message is sent to its subscriber: all but the registration. -/
def sendMoves : List Move :=
  [.begin (.peerDiscovered subscriber), .go 0 (clock 0),
    .begin (.publish [0x74] [42] .reliable 0)].append (Move.run 5 1 (clock 0))

/-- The answer arrives. -/
def ackMoves (call : Nat) : List Move :=
  .begin (.received { address := [2], port := 7400, transportType := MessageBus.udp } firstAck) ::
    Move.run 2 call (clock 0)

/-- The periodic task looks for overdue frames. -/
def timeoutCheckMoves (call : Nat) : List Move :=
  .begin .tick :: Move.run 2 call (clock 1000000000)

def overtakingMoves : List Move :=
  List.flatten [sendMoves, ackMoves 2, [.go 1 (clock 0)], timeoutCheckMoves 3]

/-- The ACK is processed before the frame is registered, and the frame is repeated. -/
theorem repetition_after_answer :
    ¬ ∀ s : BusThreads, system.Reachable s → ∀ post mid pre repetition answer r,
      s.log = post ++ repetition :: (mid ++ answer :: pre) → Answers r.seqId answer.action →
      (∃ e ∈ pre, sends r.seqId e = true) →
      .resend r ∈ (repetition.outcome Action.run).effects →
      Newer r.seqId r.dest r.data mid (answer :: pre) := by
  intro hclaim
  have hreach : (system.restrict fun _ _ => True).Reachable (after fresh overtakingMoves) :=
    after_reachable initial_fresh (by decide +kernel) (Threads.along_true _)
  have hrepeated : repeatedLate 2 (after fresh overtakingMoves).log = true := by decide +kernel
  obtain ⟨repetition, mid, answer, pre, r, hlog, hseq, hresend, hanswer, hsent, hquiet⟩ :=
    exists_of_repeatedLate hrepeated
  rw [← hseq] at hanswer hsent hquiet
  exact not_newer hquiet (hclaim _ hreach.of_restrict [] mid pre repetition answer r hlog hanswer
    hsent hresend)

/-! ### The usual order -/

/-- A test for `InOrder`, for runs without PUBCOMP. -/
def inOrderCheck (s : BusThreads) : Threads.Label Env Action → Bool
  | .start _ => true
  | .step i _ =>
      match s.calls[i]? with
      | some (.onAck q :: _) => s.calls.all fun call => call.all fun
          | .addPending n _ _ _ => decide (n ≠ q)
          | _ => true
      | some (.onPubrec _ _ :: _) => false
      | some (.onPubcomp _ :: _) => false
      | _ => true

theorem inOrder_of_check (s : BusThreads) (l : Threads.Label Env Action)
    (h : inOrderCheck s l = true) : InOrder s l := by
  cases l with
  | start actions => exact trivial
  | step i env =>
      intro a rest hcall q
      simp only [inOrderCheck, hcall] at h
      refine ⟨?_, ?_, ?_⟩
      · rintro (rfl | ⟨source, rfl⟩) j b ⟨call, hj, hmem⟩ ⟨data, qos, dest, rfl⟩
        · simp only [List.all_eq_true] at h
          exact of_decide_eq_true (h call (List.mem_of_getElem? hj) _ hmem) rfl
        · exact absurd h Bool.false_ne_true
      · rintro rfl
        exact absurd h Bool.false_ne_true
      · rintro source rfl
        exact absurd h Bool.false_ne_true

/-- The frame is registered before the ACK arrives. -/
def orderlyMoves : List Move :=
  List.flatten [sendMoves, [.go 1 (clock 0)], ackMoves 2, timeoutCheckMoves 3]

theorem no_repetition_after_answer_orderly :
    ∃ repetition mid answer pre, (after fresh orderlyMoves).log =
      repetition :: (mid ++ answer :: pre) ∧ Answers 2 answer.action ∧
      (∃ e ∈ pre, sends 2 e = true) ∧
      ∀ r, r.seqId = 2 → .resend r ∈ (repetition.outcome Action.run).effects →
        Newer r.seqId r.dest r.data mid (answer :: pre) := by
  have hreach : (system.restrict InOrder).Reachable (after fresh orderlyMoves) :=
    after_reachable initial_fresh (by decide +kernel)
      (Threads.along_of_checks inOrder_of_check (by decide +kernel))
  have hanswered : answeredIn 2 ((after fresh orderlyMoves).log.drop 1) = true := by
    decide +kernel
  obtain ⟨mid, answer, pre, hlog, hanswer, hsent, _⟩ := exists_of_answeredIn hanswered
  cases hcons : (after fresh orderlyMoves).log with
  | nil =>
      rw [hcons] at hanswered
      exact absurd hanswered Bool.false_ne_true
  | cons repetition older =>
      rw [hcons] at hlog
      obtain rfl : older = mid ++ answer :: pre := hlog
      refine ⟨repetition, mid, answer, pre, rfl, hanswer, hsent, fun r hr hresend => ?_⟩
      have hsplit : (after fresh orderlyMoves).log =
          [] ++ repetition :: (mid ++ answer :: pre) := hcons
      exact (no_repetition_after_answer hreach hsplit).1 (hr ▸ hanswer) hresend

end BusThreads

end EmbedMq
