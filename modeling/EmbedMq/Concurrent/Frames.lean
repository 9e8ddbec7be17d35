import EmbedMq.Codec.RoundTrip
import EmbedMq.Concurrent.Retransmission

/-!
# What threads hand to the transport

Whatever a thread sends is a numbered frame, now or again, or the answer to a frame that its own
call has decoded, or a PUBREL. A number stands for one frame. A message that goes out as slices is
a frame only if it fits the header; in the runs that are `Fitting`, all of them do.
-/

namespace EmbedMq

open MessageBus (Prompts)
open MessageCodec (EncodeArgs DecodeResult encode)

namespace Action

variable {env : Env} {bus : MessageBus} {a : Action}

/-! ### Numbered frames -/

/-- A message that goes out as slices fits the header. -/
def FitsHeader (topic payload : Bytes) (qos : QoSProfile) : Prop :=
  QoSLevel.reliable ≤ qos.level ∨ (topic.length ≤ 65535 ∧ payload.length ≤ 64 * 1024 * 1024)

instance (topic payload : Bytes) (qos : QoSProfile) : Decidable (FitsHeader topic payload qos) :=
  inferInstanceAs (Decidable (_ ∨ _))

/-- The message of a publish, through all its actions. -/
def Fits : Action → Prop
  | publish topic payload qos _ => FitsHeader topic payload qos
  | selectTargets topic payload qos _ => FitsHeader topic payload qos
  | sendTo topic payload qos _ _ => FitsHeader topic payload qos
  | _ => True

theorem fits_next (h : a.Fits) {b : Action} (hb : b ∈ (run env a bus).next) : b.Fits := by
  cases asks_of_mem hb with
  | publishSelect => exact h
  | selectTargets => exact h
  | receive _ _ _ hreceives =>
      cases hreceives with
      | dispatches hdispatches => cases hdispatches <;> exact trivial
      | _ => exact trivial
  | isDuplicate _ _ hdispatches => cases hdispatches <;> exact trivial
  | _ => exact trivial

/-- The arguments with which an action has encoded a frame. -/
structure Framed (bus : MessageBus) (a : Action) (number : Nat) (args : EncodeArgs) : Prop where
  source : args.sourceId = bus.nodeId
  number : args.sequenceId = UInt32.ofNat number
  type : args.type = .publish ∨ args.type = .request ∨ args.type = .reply
  message : ∀ {topic payload qos flags dest}, a = .sendTo topic payload qos flags dest →
    args.type = .publish ∧ args.topic = topic ∧ args.payload = payload ∧ args.qos = qos

/-- The slices of a message that fits the header are a frame. -/
theorem framed_slices {topic payload : Bytes} {qos : QoSProfile} {flags : UInt8} {ep : Endpoint}
    {number : Nat} {data : Bytes} (hfits : FitsHeader topic payload qos)
    (hcontent : MessageBus.Content bus.nodeId (.publish topic payload qos flags) number data) :
    ∃ args stamp, data = encode args stamp ∧
      Framed bus (.sendTo topic payload qos flags ep) number args := by
  cases hcontent with
  | publish hb stamp =>
      exact ⟨_, stamp, rfl, hb, rfl, Or.inl rfl, fun h => (by cases h; exact ⟨rfl, rfl, rfl, rfl⟩)⟩
  | raw hlevel hlong =>
      obtain hreliable | ⟨htopic, hpayload⟩ := hfits
      · exact absurd hreliable hlevel
      · omega
  | request _ _ hcall =>
      obtain hcall | ⟨_, _, _, _, _, hcall⟩ := hcall
      · cases hcall
      · cases hcall

theorem framed (hfits : a.Fits) {number : Nat} {dest : Endpoint} {slices : List Bytes}
    (h : .frame number dest slices ∈ (run env a bus).effects) :
    ∃ args stamp, slices.flatten = encode args stamp ∧ Framed bus a number args := by
  have hsends : a.sendsFrames = true := by
    cases emits_of_mem h with
    | frame _ _ _ hsends _ => exact hsends
  cases a with
  | sendTo topic payload qos flags ep =>
      simp only [run, runSendTo] at h
      split at h
      · obtain ⟨rfl, rfl, rfl⟩ := Effect.frame.inj (List.mem_singleton.mp h)
        rw [List.flatten_singleton]
        exact ⟨_, _, rfl, rfl, rfl, Or.inl rfl, fun h => (by cases h; exact ⟨rfl, rfl, rfl, rfl⟩)⟩
      · rename_i hlevel
        obtain ⟨rfl, rfl, rfl⟩ := Effect.frame.inj (List.mem_singleton.mp h)
        exact framed_slices hfits
          (MessageBus.content_publishSlices env bus topic payload qos flags _ hlevel)
  | findReply source r =>
      simp only [run] at h
      split at h
      · simp only [MessageBus.sendReply, Bool.false_eq_true, false_and, if_false] at h
        obtain ⟨rfl, rfl, rfl⟩ := Effect.frame.inj (List.mem_singleton.mp h)
        rw [List.flatten_singleton]
        exact ⟨_, _, rfl, rfl, rfl, Or.inr (Or.inr rfl), fun h => (by cases h)⟩
      · exact absurd h List.not_mem_nil
  | sendReply _ corrId payload qos =>
      obtain ⟨rfl, rfl, rfl⟩ := Effect.frame.inj (List.mem_singleton.mp h)
      rw [List.flatten_singleton]
      exact ⟨_, _, rfl, rfl, rfl, Or.inr (Or.inr rfl), fun h => (by cases h)⟩
  | dispatchRequest service payload qos corrId =>
      obtain ⟨_, _, stamp, hframe⟩ := MessageBus.mem_dispatchRequest env bus h
      obtain ⟨rfl, rfl, rfl⟩ := Effect.frame.inj hframe
      rw [List.flatten_singleton]
      exact ⟨_, stamp, rfl, rfl, rfl, Or.inr (Or.inl rfl), fun h => (by cases h)⟩
  | retryRequest job =>
      obtain ⟨_, _, stamp, hframe⟩ := MessageBus.mem_dispatchRequest env bus h
      obtain ⟨rfl, rfl, rfl⟩ := Effect.frame.inj hframe
      rw [List.flatten_singleton]
      exact ⟨_, stamp, rfl, rfl, rfl, Or.inr (Or.inl rfl), fun h => (by cases h)⟩
  | _ => cases hsends

/-- The transmission of a message to one target is one frame. -/
theorem sendTo_frame {topic payload : Bytes} {qos : QoSProfile} {flags : UInt8}
    {ep dest : Endpoint} {number : Nat} {slices : List Bytes}
    (h : .frame number dest slices ∈ (run env (.sendTo topic payload qos flags ep) bus).effects) :
    (run env (.sendTo topic payload qos flags ep) bus).effects = [.frame number dest slices] := by
  simp only [run, runSendTo] at h ⊢
  split at h
  · rw [if_pos ‹_›, List.mem_singleton.mp h]
  · rw [if_neg ‹_›, List.mem_singleton.mp h]

/-! ### Waiting frames -/

/-- What an action makes of a frame that waits for an answer. -/
inductive Fate (env : Env) (bus : MessageBus) (a : Action) (q : UInt32) (pm : PendingMsg) :
    Option PendingMsg → Prop
  | kept : Fate env bus a q pm (some pm)
  | registered {data : Bytes} {qos : QoSProfile} {dest : Endpoint} :
      a = .addPending q data qos dest →
      Fate env bus a q pm (some (QoSEngine.make q data qos dest (env.sent q)))
  | retried {now : Int} : .resend (QoSEngine.resendOf pm) ∈ (run env a bus).effects →
      Fate env bus a q pm (some (QoSEngine.retry pm now))
  | answered : BusThreads.Answers q a → Fate env bus a q pm none
  | abandoned {ids : List UInt32} : a = .processTimeouts → QoSEngine.exhausted pm = true →
      .abandoned ids ∈ (run env a bus).effects → pm.seqId ∈ ids → Fate env bus a q pm none

theorem fate (env : Env) (a : Action) {q : UInt32} {pm : PendingMsg}
    (h : bus.qosEngine.pending.lookup q = some pm) :
    Fate env bus a q pm ((run env a bus).state.qosEngine.pending.lookup q) := by
  have hkept := (run_keeps env a bus).pending
  cases a with
  | addPending seqId data qos dest =>
      simp only [run, QoSEngine.lookup_addPending, h]
      split
      · rename_i hq
        subst hq
        exact .registered rfl
      · exact .kept
  | onAck seqId =>
      simp only [run, QoSEngine.lookup_onAck, h]
      split
      · rename_i hq
        subst hq
        exact .answered (Or.inl rfl)
      · exact .kept
  | onPubrec source seqId =>
      simp only [run, QoSEngine.lookup_onPubrec, h]
      split
      · rename_i hq
        subst hq
        exact .answered (Or.inr ⟨source, rfl⟩)
      · exact .kept
  | onNack seqId =>
      by_cases hq : q = seqId
      · subst hq
        have hrun : (run env (.onNack q) bus).effects = [.resend (QoSEngine.resendOf pm)] := by
          simp only [run, QoSEngine.onNack, h, List.map_cons, List.map_nil]
        have hafter : (run env (.onNack q) bus).state.qosEngine.pending.lookup q =
            some (QoSEngine.retry pm (env.sent q)) := by
          simp only [run, QoSEngine.onNack, h, Table.lookup_insert_eq, if_true]
        rw [hafter]
        exact .retried (hrun ▸ List.mem_singleton.mpr rfl)
      · have hafter : (run env (.onNack seqId) bus).state.qosEngine.pending.lookup q = some pm := by
          simp only [run, QoSEngine.onNack]
          split
          · simp only [Table.lookup_insert_eq, if_neg hq, h]
          · exact h
        rw [hafter]
        exact .kept
  | processTimeouts =>
      change Fate env bus .processTimeouts q pm
        ((QoSEngine.sweep bus.qosEngine.pending env.now env.sent).table.lookup q)
      obtain hsame | ⟨hretried, hlisted⟩ | ⟨hgone, hexhausted, hlisted⟩ :=
        QoSEngine.sweep_cases q env.now env.sent h
      · rw [hsame]
        exact .kept
      · rw [hretried]
        exact .retried (List.mem_append_left _ (List.mem_append_left _
          (List.mem_map_of_mem hlisted)))
      · rw [hgone]
        exact .abandoned rfl hexhausted (List.mem_append_right _ (List.mem_singleton.mpr rfl))
          (List.mem_append_left _ hlisted)
  | _ =>
      rw [hkept rfl, h]
      exact .kept

end Action

namespace BusThreads

variable {s : BusThreads} {cond : BusThreads → Threads.Label Env Action → Prop}

/-! ### Everything a thread sends -/

/-- The messages of every publish fit the header. -/
def Fitting (_ : BusThreads) : Threads.Label Env Action → Prop
  | .start actions => ∀ a ∈ actions, a.Fits
  | .step _ _ => True

theorem event_fits (h : (system.restrict Fitting).Reachable s) {e : BusEvent} (he : e ∈ s.log) :
    e.action.Fits :=
  Threads.passed_on h (fun _ _ _ hfits => hfits)
    (fun _ _ _ hfits _ hb => Action.fits_next hfits hb) (Or.inr ⟨e, he, rfl⟩)

/-- The frames that wait, or are about to, have been sent. -/
theorem renewed_log (h : (system.restrict cond).Reachable s) (q : UInt32) : Renewed q s.log s := by
  refine Threads.invariant (motive := fun s => Renewed q s.log s) h ?_ ?_ ?_
  · intro s hinit hcalls _
    refine ⟨fun pm hpm => ?_, ?_⟩
    · rw [hinit] at hpm
      exact absurd hpm (by simp)
    · rintro j data qos dest ⟨call, hcall, _⟩
      rw [hcalls] at hcall
      cases hcall
  · intro s actions _ hinv hentry _
    refine ⟨hinv.pending, fun j data qos dest hwaiting => ?_⟩
    exact hinv.waiting j data qos dest (waiting_of_start hentry hwaiting (by rintro (_ | _) ⟨⟩))
  · intro s i env a rest _ hinv hcall _
    exact renewed_stepped hcall hinv

/-- The bytes of a PUBREL. -/
def IsPubrel (q : UInt32) (data : Bytes) : Prop :=
  ∃ (b : MessageBus) (stamp : UInt64), data = encode (b.controlArgs .pubrel q .exactlyOnce) stamp

/-- What is registered to wait for a PUBCOMP is a PUBREL. -/
def RegistersPubrel : Action → Prop
  | .addPendingRel q data _ => IsPubrel q data
  | _ => True

theorem registersPubrel_asked {env : Env} {bus : MessageBus} {a b : Action}
    (h : Action.Asks env bus a b) : RegistersPubrel b := by
  cases h with
  | sendPubrel source seqId stamp => exact ⟨bus, stamp, rfl⟩
  | receive _ _ _ hreceives =>
      cases hreceives with
      | dispatches hdispatches => cases hdispatches <;> exact trivial
      | _ => exact trivial
  | isDuplicate _ _ hdispatches => cases hdispatches <;> exact trivial
  | _ => exact trivial

theorem pendingRel_isPubrel (h : (system.restrict cond).Reachable s) {q : UInt32}
    {pm : PendingMsg} (hpm : s.shared.qosEngine.pendingRel.lookup q = some pm) :
    IsPubrel q pm.data := by
  refine Threads.invariant (motive := fun s => ∀ pm,
    s.shared.qosEngine.pendingRel.lookup q = some pm → IsPubrel q pm.data) h ?_ ?_ ?_ pm hpm
  · intro s hinit _ _ pm hpm
    rw [hinit] at hpm
    exact absurd hpm (by simp)
  · intro s actions _ hinv _ _
    exact hinv
  · intro s i env a rest hreach hinv hcall _ pm hpm
    obtain ⟨old, hold, hsame⟩ | ⟨data, dest, rfl, hnew⟩ := Action.lookup_pendingRel hpm
    · have hdata : pm.data = old.data := congrArg Resend.data hsame
      rw [hdata]
      exact hinv old hold
    · have hdata : pm.data = data := congrArg Resend.data hnew
      have hregisters : RegistersPubrel (.addPendingRel q data dest) := by
        refine Threads.passed_on hreach ?_ ?_ (Or.inl ⟨i, Threads.waiting_head hcall⟩)
        · rintro _ _ ⟨call, rfl⟩ _ a ha
          rw [List.mem_singleton.mp ha]
          cases call <;> exact trivial
        · intro bus env a _ b hb
          exact registersPubrel_asked (Action.asks_of_mem hb)
      rw [hdata]
      exact hregisters

/-- A control frame answers a frame that its call has decoded. -/
theorem sendCtrl_prompted (h : (system.restrict cond).Reachable s) {post pre : List BusEvent}
    {e : BusEvent} (hlog : s.log = post ++ e :: pre) {dest : Endpoint} {type : MessageType}
    {q : UInt32} (haction : e.action = .sendCtrl dest type q) :
    ∃ asker ∈ pre, asker.call = e.call ∧ ∃ r, Decodes asker dest r ∧ Prompts type r ∧
      r.header.sequenceId = q := by
  obtain ⟨post', asker, pre', rfl, hcall, hasks⟩ := event_asked h hlog (by
    rw [haction]
    rintro (_ | _) ⟨⟩)
  have hmem : asker ∈ post' ++ asker :: pre' := List.mem_append_right _ List.mem_cons_self
  rw [haction] at hasks
  generalize hasker : asker.action = a at hasks
  cases hasks with
  | receive source data hvalid hreceives =>
      cases hreceives with
      | sendCtrl _ hprompts =>
          exact ⟨asker, hmem, hcall, _, ⟨data, hasker, rfl, hvalid⟩, hprompts, rfl⟩
      | dispatches hdispatches =>
          cases hdispatches with
          | ack htype hlevel =>
              exact ⟨asker, hmem, hcall, _, ⟨data, hasker, rfl, hvalid⟩,
                Or.inr ⟨htype, hlevel⟩, rfl⟩
  | isDuplicate source r hdispatches =>
      cases hdispatches with
      | ack htype hlevel =>
          have hlog' : s.log = (post ++ e :: post') ++ asker :: pre' := by
            rw [hlog, List.append_assoc, List.cons_append]
          obtain ⟨first, hfirst, hsame, hdecodes⟩ := decodes_of_isDuplicate h hlog' hasker
          exact ⟨first, List.mem_append_right _ (List.mem_cons_of_mem _ hfirst),
            hsame.trans hcall, r, hdecodes, Or.inr ⟨htype, hlevel⟩, rfl⟩

/-- What the threads of a bus have handed to the transport for a destination. -/
inductive Transmitted (log : List BusEvent) (dest : Endpoint) : Bytes → Prop
  | frame {e : BusEvent} {number : Nat} {slices : List Bytes} : e ∈ log →
      .frame number dest slices ∈ (e.outcome Action.run).effects →
      Transmitted log dest slices.flatten
  | control {e : BusEvent} {type : MessageType} {r : DecodeResult} (b : MessageBus)
      (stamp : UInt64) : e ∈ log → Decodes e dest r → Prompts type r →
      Transmitted log dest (encode (b.controlArgs type r.header.sequenceId) stamp)
  | release {q : UInt32} {data : Bytes} : IsPubrel q data → Transmitted log dest data

theorem transmitted (h : (system.restrict cond).Reachable s) {e : BusEvent} (he : e ∈ s.log)
    {effect : Effect} (heffect : effect ∈ (e.outcome Action.run).effects) {dest : Endpoint}
    {data : Bytes} (hpacket : effect.packet = some (dest, data)) :
    Transmitted s.log dest data := by
  obtain ⟨post, pre, hlog⟩ := List.append_of_mem he
  obtain ⟨t, rest, hreach, rfl, hshared, _⟩ := Threads.event_origin h hlog
  have hold : ∀ x ∈ t.log, x ∈ s.log := fun x hx =>
    hlog ▸ List.mem_append_right _ (List.mem_cons_of_mem _ hx)
  cases effect with
  | frame number ep slices =>
      obtain ⟨rfl, rfl⟩ := Prod.mk.inj (Option.some.inj hpacket)
      exact .frame he heffect
  | answer ep out =>
      obtain ⟨rfl, rfl⟩ := Prod.mk.inj (Option.some.inj hpacket)
      have hemits := Action.emits_of_mem heffect
      generalize haction : e.action = a at hemits
      cases hemits with
      | control _ type seqId stamp =>
          obtain ⟨asker, hasker, _, r, hdecodes, hprompts, rfl⟩ := sendCtrl_prompted h hlog haction
          exact .control _ stamp (hold asker hasker) hdecodes hprompts
      | release _ seqId stamp => exact .release ⟨_, stamp, rfl⟩
  | resend r =>
      obtain ⟨k, pm, hpm, rfl⟩ := Action.resend_mem_effects heffect
      obtain ⟨rfl, rfl⟩ := Prod.mk.inj (Option.some.inj hpacket)
      rw [← hshared] at hpm
      obtain ⟨first, hfirst, number, hframe, _⟩ := (renewed_log hreach k).pending pm hpm
      have hsent := Transmitted.frame (hold first hfirst) hframe
      rwa [List.flatten_singleton] at hsent
  | resendRel r =>
      obtain ⟨k, pm, hpm, rfl⟩ := Action.resendRel_mem_effects heffect
      obtain ⟨rfl, rfl⟩ := Prod.mk.inj (Option.some.inj hpacket)
      rw [← hshared] at hpm
      exact .release (pendingRel_isPubrel hreach hpm)
  | _ => cases hpacket

/-! ### Registrations and answers -/

/-- What is registered has been sent, by an action that asks for it to be registered. -/
theorem addPending_sent (h : (system.restrict cond).Reachable s) {q : UInt32} {data : Bytes}
    {qos : QoSProfile} {dest : Endpoint} (ha : s.Involves (.addPending q data qos dest)) :
    ∃ e ∈ s.log, ∃ number, UInt32.ofNat number = q ∧
      .frame number dest [data] ∈ (e.outcome Action.run).effects ∧
      ((∃ topic payload flags, e.action = .sendTo topic payload qos flags dest) ∨
        ∃ corrId payload, e.action = .sendReply dest corrId payload qos) := by
  obtain ⟨_, ⟨call, rfl⟩, hmem⟩ | ⟨e, he, hnext⟩ := Threads.origin h ha
  · cases call <;> cases List.mem_singleton.mp hmem
  · have hasks := Action.asks_of_mem hnext
    generalize haction : e.action = a at hasks
    cases hasks with
    | sendTo topic payload _ flags _ _ hframe =>
        refine ⟨e, he, _, rfl, ?_, Or.inl ⟨topic, payload, flags, haction⟩⟩
        rw [Event.outcome, haction]
        exact hframe
    | sendReply _ corrId payload _ _ hframe =>
        refine ⟨e, he, _, rfl, ?_, Or.inr ⟨corrId, payload, haction⟩⟩
        rw [Event.outcome, haction]
        exact hframe
    | receive _ _ _ hreceives =>
        cases hreceives with
        | dispatches hdispatches => cases hdispatches
    | isDuplicate _ _ hdispatches => cases hdispatches

/-- An answer is processed by a call that has decoded it. -/
theorem answer_decoded (h : (system.restrict cond).Reachable s) {q : UInt32} {a : Action}
    (ha : s.Involves a) (hanswers : Answers q a) :
    ∃ e ∈ s.log, ∃ source r, Decodes e source r ∧ r.header.sequenceId = q ∧
      (MessageType.ofByte r.header.msgType = .ack ∨
        MessageType.ofByte r.header.msgType = .pubrec) := by
  obtain ⟨_, ⟨call, rfl⟩, hmem⟩ | ⟨e, he, hnext⟩ := Threads.origin h ha
  · rw [List.mem_singleton.mp hmem] at hanswers
    obtain hack | ⟨_, hpubrec⟩ := hanswers
    · cases call <;> cases hack
    · cases call <;> cases hpubrec
  · have hasks := Action.asks_of_mem hnext
    generalize haction : e.action = b at hasks
    obtain rfl | ⟨source, rfl⟩ := hanswers
    · cases hasks with
      | receive source data hvalid hreceives =>
          cases hreceives with
          | onAck htype => exact ⟨e, he, source, _, ⟨data, haction, rfl, hvalid⟩, rfl, Or.inl htype⟩
          | dispatches hdispatches => cases hdispatches
      | isDuplicate _ _ hdispatches => cases hdispatches
    · cases hasks with
      | receive source data hvalid hreceives =>
          cases hreceives with
          | onPubrec htype =>
              exact ⟨e, he, source, _, ⟨data, haction, rfl, hvalid⟩, rfl, Or.inr htype⟩
          | dispatches hdispatches => cases hdispatches
      | isDuplicate _ _ hdispatches => cases hdispatches

/-! ### Numbers -/

/-- A number is drawn by one event. -/
theorem frame_event_unique (h : (system.restrict cond).Reachable s) {e e' : BusEvent}
    (he : e ∈ s.log) (he' : e' ∈ s.log) {number : Nat} {dest dest' : Endpoint}
    {slices slices' : List Bytes}
    (hframe : .frame number dest slices ∈ (e.outcome Action.run).effects)
    (hframe' : .frame number dest' slices' ∈ (e'.outcome Action.run).effects) : e = e' := by
  obtain ⟨post, pre, hlog⟩ := List.append_of_mem he
  rw [hlog] at he'
  obtain hpost | hrest := List.mem_append.mp he'
  · exact absurd (frame_lt h hlog hpost List.mem_cons_self hframe' hframe) (Nat.lt_irrefl _)
  · obtain rfl | hpre := List.mem_cons.mp hrest
    · rfl
    · have hlog' : s.log = (post ++ [e]) ++ pre := by
        rw [hlog, List.append_assoc, List.singleton_append]
      have hmem : e ∈ post ++ [e] := List.mem_append_right _ (List.mem_singleton.mpr rfl)
      exact absurd (frame_lt h hlog' hmem hpre hframe hframe') (Nat.lt_irrefl _)

/-- Below `2 ^ 32` numbers, the number in a frame tells which transmission it belongs to. -/
theorem frame_unique (h : (system.restrict cond).Reachable s)
    (hnumbers : s.shared.seqCounter ≤ 2 ^ 32) {e e' : BusEvent} (he : e ∈ s.log) (he' : e' ∈ s.log)
    {n n' : Nat} {dest dest' : Endpoint} {slices slices' : List Bytes}
    (hframe : .frame n dest slices ∈ (e.outcome Action.run).effects)
    (hframe' : .frame n' dest' slices' ∈ (e'.outcome Action.run).effects)
    (hq : UInt32.ofNat n = UInt32.ofNat n') : e = e' ∧ n = n' := by
  have hlt := Nat.lt_of_lt_of_le (frames_below h he hframe) hnumbers
  have hlt' := Nat.lt_of_lt_of_le (frames_below h he' hframe') hnumbers
  obtain rfl := MessageBus.wireNumber_inj hlt hlt' hq
  exact ⟨frame_event_unique h he he' hframe hframe', rfl⟩

theorem next_nodeId (s : BusThreads) (l : Threads.Label Env Action) :
    (s.next Action.run l).shared.nodeId = s.shared.nodeId := by
  cases l with
  | start actions => rfl
  | step i env =>
      simp only [Threads.next]
      split
      · exact Action.run_nodeId _ _ _
      · rfl

theorem event_nodeId (h : (system.restrict cond).Reachable s) {e : BusEvent} (he : e ∈ s.log) :
    e.before.nodeId = s.shared.nodeId := by
  refine Threads.invariant (motive := fun s => ∀ e ∈ s.log, e.before.nodeId = s.shared.nodeId)
    h ?_ ?_ ?_ e he
  · intro s _ _ hnil e he
    rw [hnil] at he
    exact absurd he List.not_mem_nil
  · intro s actions _ hinv _ _
    exact hinv
  · intro s i env a rest _ hinv _ _ e he
    have hsame : (s.stepped Action.run i env a rest).shared.nodeId = s.shared.nodeId :=
      Action.run_nodeId env a s.shared
    rw [hsame]
    obtain rfl | hold := List.mem_cons.mp he
    · rfl
    · exact hinv e hold

end BusThreads

end EmbedMq
