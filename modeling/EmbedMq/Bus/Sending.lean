import EmbedMq.Bus.Frame
import EmbedMq.Codec.Layout

/-!
# What a call sends

Every frame that a call hands to the transport is one of four things: a numbered
frame, with a number that the call takes from the sequence counter; an answer to
the frame that the call received; or a repetition of an entry of `pending` or of
`pendingRel`. `Emission` collects what is known about the numbered frames of a
list of effects, and is built up along the loops of `publish` and of the periodic
task. `Origin` says where the other three kinds come from.
-/

namespace EmbedMq.MessageBus

open MessageCodec (EncodeArgs DecodeResult Encodable encode encodeHeaderInto publishSlices)

/-! ### Numbered frames -/

/-- Below `2 ^ 32` the number in a frame tells the value of the counter. -/
theorem wireNumber_inj {m n : Nat} (hm : m < 2 ^ 32) (hn : n < 2 ^ 32)
    (h : UInt32.ofNat m = UInt32.ofNat n) : m = n := by
  have htoNat := congrArg UInt32.toNat h
  rwa [UInt32.toNat_ofNat_of_lt' hm, UInt32.toNat_ofNat_of_lt' hn] at htoNat

/-- The bytes of a numbered frame, by the call that sends it. A BestEffort message
that does not fit the header is sent without one. -/
inductive Content (nodeId : UInt16) : Call → Nat → Bytes → Prop
  | publish {b : MessageBus} (hb : b.nodeId = nodeId) {topic payload : Bytes} {qos : QoSProfile}
      {flags : UInt8} {n : Nat} (stamp : UInt64) :
      Content nodeId (.publish topic payload qos flags) n
        (encode (b.publishArgs topic payload qos flags (UInt32.ofNat n)) stamp)
  | raw {topic payload : Bytes} {qos : QoSProfile} {flags : UInt8} {n : Nat}
      (hlevel : ¬ QoSLevel.reliable ≤ qos.level)
      (hlong : 65535 < topic.length ∨ 64 * 1024 * 1024 < payload.length) :
      Content nodeId (.publish topic payload qos flags) n (topic ++ payload)
  | reply {b : MessageBus} (hb : b.nodeId = nodeId) {source : Endpoint} {data payload : Bytes}
      {qos : QoSProfile} {corrId : UInt32} {n : Nat} (stamp : UInt64) :
      Content nodeId (.received source data) n
        (encode (b.replyArgs payload qos corrId (UInt32.ofNat n)) stamp)
  | request {b : MessageBus} (hb : b.nodeId = nodeId) {call : Call} {service payload : Bytes}
      {qos : QoSProfile} {corrId : UInt32} {n : Nat} (stamp : UInt64)
      (hcall : call = .tick ∨ ∃ s p q c t, call = .sendRequest s p q c t) :
      Content nodeId call n
        (encode (b.requestArgs service payload qos corrId (UInt32.ofNat n)) stamp)

/-- The numbered frames among some effects: their numbers lie between two values of
the counter, and a number stands for one frame. Only a request goes to several
destinations under one number. -/
structure Emission (nodeId : UInt16) (call : Call) (lo hi : Nat) (effects : List Effect) :
    Prop where
  le : lo ≤ hi
  range : ∀ {n dest slices}, .frame n dest slices ∈ effects → lo ≤ n ∧ n < hi
  content : ∀ {n dest slices}, .frame n dest slices ∈ effects →
    Content nodeId call n slices.flatten
  same : ∀ {n d₁ d₂ s₁ s₂}, .frame n d₁ s₁ ∈ effects → .frame n d₂ s₂ ∈ effects →
    s₁.flatten = s₂.flatten ∧
      (d₁ = d₂ ∨ call = .tick ∨ ∃ s p q c t, call = .sendRequest s p q c t)
  registered : ∀ {q dest data qos}, .register q dest data qos ∈ effects →
    ∃ n slices, q = UInt32.ofNat n ∧ .frame n dest slices ∈ effects ∧ slices.flatten = data ∧
      lo ≤ n ∧ n < hi

namespace Emission

variable {nodeId : UInt16} {call : Call} {lo mid hi : Nat} {first second : List Effect}

theorem of_quiet (h : ∀ effect ∈ first, (∀ n dest slices, effect ≠ .frame n dest slices) ∧
    ∀ q dest data qos, effect ≠ .register q dest data qos) (hle : lo ≤ hi) :
    Emission nodeId call lo hi first where
  le := hle
  range := fun hmem => absurd rfl ((h _ hmem).1 _ _ _)
  content := fun hmem => absurd rfl ((h _ hmem).1 _ _ _)
  same := fun hmem _ => absurd rfl ((h _ hmem).1 _ _ _)
  registered := fun hmem => absurd rfl ((h _ hmem).2 _ _ _ _)

theorem append (hfirst : Emission nodeId call lo mid first)
    (hsecond : Emission nodeId call mid hi second) :
    Emission nodeId call lo hi (first ++ second) where
  le := Nat.le_trans hfirst.le hsecond.le
  range := by
    intro n dest slices hmem
    obtain hmem | hmem := List.mem_append.mp hmem
    · obtain ⟨hlo, hmid⟩ := hfirst.range hmem
      exact ⟨hlo, Nat.lt_of_lt_of_le hmid hsecond.le⟩
    · obtain ⟨hmid, hhi⟩ := hsecond.range hmem
      exact ⟨Nat.le_trans hfirst.le hmid, hhi⟩
  content := by
    intro n dest slices hmem
    obtain hmem | hmem := List.mem_append.mp hmem
    · exact hfirst.content hmem
    · exact hsecond.content hmem
  same := by
    intro n d₁ d₂ s₁ s₂ h₁ h₂
    -- frames of different lists have different numbers
    obtain h₁ | h₁ := List.mem_append.mp h₁ <;> obtain h₂ | h₂ := List.mem_append.mp h₂
    · exact hfirst.same h₁ h₂
    · exact absurd (hfirst.range h₁).2 (Nat.not_lt.mpr (hsecond.range h₂).1)
    · exact absurd (hfirst.range h₂).2 (Nat.not_lt.mpr (hsecond.range h₁).1)
    · exact hsecond.same h₁ h₂
  registered := by
    intro q dest data qos hmem
    obtain hmem | hmem := List.mem_append.mp hmem
    · obtain ⟨n, slices, hq, hframe, hdata, hlo, hmid⟩ := hfirst.registered hmem
      exact ⟨n, slices, hq, List.mem_append_left _ hframe, hdata, hlo,
        Nat.lt_of_lt_of_le hmid hsecond.le⟩
    · obtain ⟨n, slices, hq, hframe, hdata, hmid, hhi⟩ := hsecond.registered hmem
      exact ⟨n, slices, hq, List.mem_append_right _ hframe, hdata,
        Nat.le_trans hfirst.le hmid, hhi⟩

theorem cons_quiet {effect : Effect} (hframe : ∀ n dest slices, effect ≠ .frame n dest slices)
    (hregister : ∀ q dest data qos, effect ≠ .register q dest data qos)
    (hrest : Emission nodeId call lo hi second) :
    Emission nodeId call lo hi (effect :: second) := by
  have honly : Emission nodeId call lo lo [effect] := by
    refine .of_quiet ?_ (Nat.le_refl _)
    intro e hmem
    rw [List.mem_singleton.mp hmem]
    exact ⟨hframe, hregister⟩
  exact honly.append hrest

/-- One frame, possibly kept for repetition. -/
theorem single {dest : Endpoint} {slices : List Bytes} {extra : List Effect}
    (hcontent : Content nodeId call lo slices.flatten)
    (hextra : ∀ effect ∈ extra, ∃ qos,
      effect = .register (UInt32.ofNat lo) dest slices.flatten qos) :
    Emission nodeId call lo (lo + 1) (.frame lo dest slices :: extra) := by
  have honly : ∀ {n d s}, Effect.frame n d s ∈ Effect.frame lo dest slices :: extra →
      n = lo ∧ d = dest ∧ s = slices := by
    intro n d s hmem
    obtain heq | hmem := List.mem_cons.mp hmem
    · exact Effect.frame.inj heq
    · obtain ⟨_, heq⟩ := hextra _ hmem
      exact absurd heq (by simp)
  refine ⟨Nat.le_succ lo, ?_, ?_, ?_, ?_⟩
  · intro n d s hmem
    obtain ⟨rfl, _, _⟩ := honly hmem
    exact ⟨Nat.le_refl _, Nat.lt_succ_self _⟩
  · intro n d s hmem
    obtain ⟨rfl, _, rfl⟩ := honly hmem
    exact hcontent
  · intro n d₁ d₂ s₁ s₂ h₁ h₂
    obtain ⟨_, rfl, rfl⟩ := honly h₁
    obtain ⟨_, rfl, rfl⟩ := honly h₂
    exact ⟨rfl, Or.inl rfl⟩
  · intro q d data qos hmem
    obtain heq | hmem := List.mem_cons.mp hmem
    · exact absurd heq (by simp)
    · obtain ⟨_, heq⟩ := hextra _ hmem
      obtain ⟨rfl, rfl, rfl, rfl⟩ := Effect.register.inj heq
      exact ⟨lo, slices, rfl, List.mem_cons_self, rfl, Nat.le_refl _, Nat.lt_succ_self _⟩

end Emission

/-! ### The loops -/

variable (env : Env) (bus : MessageBus)

/-- The slices of a BestEffort message: the frame, or topic and payload without header. -/
theorem content_publishSlices (topic payload : Bytes) (qos : QoSProfile) (flags : UInt8) (n : Nat)
    (hlevel : ¬ QoSLevel.reliable ≤ qos.level) :
    Content bus.nodeId (.publish topic payload qos flags) n
      (publishSlices (encodeHeaderInto []
        (bus.publishArgs topic payload qos flags (UInt32.ofNat n))
        (env.stamp (UInt32.ofNat n))).2 topic payload).flatten := by
  rw [MessageCodec.flatten_publishSlices, MessageCodec.encodeHeaderInto_eq]
  by_cases henc : Encodable (bus.publishArgs topic payload qos flags (UInt32.ofNat n))
  · have hframe := MessageCodec.encode_eq
      (bus.publishArgs topic payload qos flags (UInt32.ofNat n)) (env.stamp (UInt32.ofNat n))
    rw [if_pos henc] at hframe ⊢
    have hcontent := @Content.publish bus.nodeId bus rfl topic payload qos flags n
      (env.stamp (UInt32.ofNat n))
    rw [hframe, MessageCodec.frameBytes, ← List.append_assoc] at hcontent
    exact hcontent
  · rw [if_neg henc]
    refine Content.raw hlevel ?_
    by_contra hshort
    obtain ⟨htopic, hpayload⟩ := not_or.mp hshort
    exact henc ⟨Nat.not_lt.mp htopic, Nat.not_lt.mp hpayload⟩

theorem publishOne_emission (topic payload : Bytes) (qos : QoSProfile) (flags : UInt8)
    (ep : Endpoint) :
    Emission bus.nodeId (.publish topic payload qos flags) bus.seqCounter (bus.seqCounter + 1)
      (bus.publishOne env topic payload qos flags ep).2 := by
  simp only [publishOne]
  split
  · refine .single ?_ ?_
    · rw [List.flatten_singleton]
      exact .publish rfl _
    · intro effect hmem
      rw [List.flatten_singleton]
      exact ⟨qos, List.mem_singleton.mp hmem⟩
  · rename_i hlevel
    refine .single ?_ ?_
    · exact content_publishSlices env bus topic payload qos flags bus.seqCounter hlevel
    · intro effect hmem
      exact absurd hmem List.not_mem_nil

theorem publishTo_emission (topic payload : Bytes) (qos : QoSProfile) (flags : UInt8)
    (eps : List Endpoint) :
    Emission bus.nodeId (.publish topic payload qos flags) bus.seqCounter
      (bus.seqCounter + eps.length) (publishTo env topic payload qos flags eps bus).2 := by
  induction eps generalizing bus with
  | nil => exact .of_quiet (by simp [publishTo]) (Nat.le_refl _)
  | cons ep rest ih =>
      obtain ⟨_, hshape⟩ := publishOne_shape env bus topic payload qos flags ep
      have hfirst := publishOne_emission env bus topic payload qos flags ep
      have hrest := ih (bus.publishOne env topic payload qos flags ep).1
      rw [hshape] at hrest
      have hcount : bus.seqCounter + (ep :: rest).length = bus.seqCounter + 1 + rest.length := by
        rw [List.length_cons]
        omega
      rw [hcount]
      simp only [publishTo]
      rw [hshape]
      exact hfirst.append hrest

theorem publish_emission (topic payload : Bytes) (qos : QoSProfile) (flags : UInt8) :
    Emission bus.nodeId (.publish topic payload qos flags) bus.seqCounter
      (bus.publish env topic payload qos flags).1.seqCounter
      (bus.publish env topic payload qos flags).2 := by
  obtain ⟨store, hstore⟩ := retain_shape env { bus with seqCounter := bus.seqCounter + 1 } flags
    { topic, payload, sourceId := bus.nodeId, sequenceId := UInt32.ofNat bus.seqCounter }
    qos.lifespanMs
  simp only [publish, hstore]
  generalize htargets : targets env
    { bus with seqCounter := bus.seqCounter + 1, retainedStore := store } _ = eps
  have hloop := publishTo_emission env
    { bus with seqCounter := bus.seqCounter + 1, retainedStore := store } topic payload qos flags
    eps
  obtain ⟨pending, hshape⟩ := publishTo_shape env
    { bus with seqCounter := bus.seqCounter + 1, retainedStore := store } topic payload qos flags
    eps
  have hroute : Emission bus.nodeId (.publish topic payload qos flags) bus.seqCounter
      (bus.seqCounter + 1) [route { bus with
        seqCounter := bus.seqCounter + 1, retainedStore := store }
        { topic, payload, sourceId := bus.nodeId, sequenceId := UInt32.ofNat bus.seqCounter }] :=
    .of_quiet (by simp [route]) (Nat.le_succ _)
  rw [hshape]
  exact hroute.append hloop

theorem mem_targets {matching : Bytes → Bool} {ep : Endpoint} :
    ep ∈ bus.targets env matching ↔ ∃ id peer, bus.peers.lookup id = some peer ∧
      peer.subscribedTopics.any matching = true ∧ peer.endpoints ≠ [] ∧
      ep = bus.selectEndpoint env peer := by
  simp only [targets, List.mem_filterMap, Prod.exists, Table.mem_toList_iff]
  constructor
  · rintro ⟨id, peer, hlookup, hep⟩
    split at hep
    · rename_i hboth
      obtain ⟨hany, hendpoints⟩ := Bool.and_eq_true_iff.mp hboth
      exact ⟨id, peer, hlookup, hany, by simpa using hendpoints, (Option.some.inj hep).symm⟩
    · cases hep
  · rintro ⟨id, peer, hlookup, hany, hendpoints, rfl⟩
    exact ⟨id, peer, hlookup, by simp [hany, hendpoints]⟩

/-! ### Messages that do not fit the header -/

section Oversized

variable {topic payload : Bytes} {qos : QoSProfile} (flags : UInt8)
  (hlevel : ¬ QoSLevel.reliable ≤ qos.level)
  (hlong : 65535 < topic.length ∨ 64 * 1024 * 1024 < payload.length)
include hlevel hlong

/-- A BestEffort message that does not fit the header goes out without one. -/
theorem publishOne_oversized (ep : Endpoint) :
    ∃ slices, .frame bus.seqCounter ep slices ∈
        (bus.publishOne env topic payload qos flags ep).2 ∧
      slices.flatten = topic ++ payload := by
  have henc : ¬ Encodable (bus.publishArgs topic payload qos flags
      (UInt32.ofNat bus.seqCounter)) := by
    rintro ⟨htopic, hpayload⟩
    obtain h | h := hlong
    · exact absurd h (Nat.not_lt.mpr htopic)
    · exact absurd h (Nat.not_lt.mpr hpayload)
  simp only [publishOne, if_neg hlevel]
  refine ⟨_, List.mem_singleton.mpr rfl, ?_⟩
  rw [MessageCodec.flatten_publishSlices, MessageCodec.encodeHeaderInto_eq, if_neg henc]
  rfl

theorem publishTo_oversized {eps : List Endpoint} {ep : Endpoint} (hep : ep ∈ eps) :
    ∃ n slices, .frame n ep slices ∈ (publishTo env topic payload qos flags eps bus).2 ∧
      slices.flatten = topic ++ payload := by
  induction eps generalizing bus with
  | nil => exact absurd hep List.not_mem_nil
  | cons first rest ih =>
      simp only [publishTo]
      obtain rfl | hrest := List.mem_cons.mp hep
      · obtain ⟨slices, hmem, hflatten⟩ := publishOne_oversized env bus flags hlevel hlong ep
        exact ⟨bus.seqCounter, slices, List.mem_append_left _ hmem, hflatten⟩
      · obtain ⟨n, slices, hmem, hflatten⟩ := ih _ hrest
        exact ⟨n, slices, List.mem_append_right _ hmem, hflatten⟩

theorem publish_oversized {ep : Endpoint} (hep : ep ∈ bus.targets env fun sub =>
      TopicRouter.matchWildcard sub topic || decide (sub = topic)) :
    ∃ n slices, .frame n ep slices ∈ (bus.publish env topic payload qos flags).2 ∧
      slices.flatten = topic ++ payload := by
  simp only [publish]
  obtain ⟨store, hstore⟩ := retain_shape env { bus with seqCounter := bus.seqCounter + 1 } flags
    { topic, payload, sourceId := bus.nodeId, sequenceId := UInt32.ofNat bus.seqCounter }
    qos.lifespanMs
  rw [hstore]
  obtain ⟨n, slices, hmem, hflatten⟩ := publishTo_oversized env
    { bus with seqCounter := bus.seqCounter + 1, retainedStore := store } flags hlevel hlong hep
  exact ⟨n, slices, List.mem_cons_of_mem _ hmem, hflatten⟩

end Oversized

/-! ### Requests and replies -/

theorem dispatchRequest_emission {call : Call} (service payload : Bytes) (qos : QoSProfile)
    (corrId : UInt32) (hcall : call = .tick ∨ ∃ s p q c t, call = .sendRequest s p q c t) :
    Emission bus.nodeId call bus.seqCounter
      (bus.dispatchRequest env service payload qos corrId).2.1.seqCounter
      (bus.dispatchRequest env service payload qos corrId).2.2 := by
  simp only [dispatchRequest]
  split
  · exact .of_quiet (by simp) (Nat.le_refl _)
  · refine ⟨Nat.le_succ _, ?_, ?_, ?_, ?_⟩
    · intro n dest slices hmem
      obtain ⟨_, _, heq⟩ := List.mem_map.mp hmem
      obtain ⟨rfl, _, _⟩ := Effect.frame.inj heq
      exact ⟨Nat.le_refl _, Nat.lt_succ_self _⟩
    · intro n dest slices hmem
      obtain ⟨_, _, heq⟩ := List.mem_map.mp hmem
      obtain ⟨rfl, _, rfl⟩ := Effect.frame.inj heq
      rw [List.flatten_singleton]
      exact .request rfl _ hcall
    · intro n d₁ d₂ s₁ s₂ h₁ h₂
      obtain ⟨_, _, heq₁⟩ := List.mem_map.mp h₁
      obtain ⟨_, _, heq₂⟩ := List.mem_map.mp h₂
      obtain ⟨_, _, rfl⟩ := Effect.frame.inj heq₁
      obtain ⟨_, _, rfl⟩ := Effect.frame.inj heq₂
      exact ⟨rfl, Or.inr hcall⟩
    · intro q dest data qos' hmem
      obtain ⟨_, _, heq⟩ := List.mem_map.mp hmem
      exact absurd heq (by simp)

theorem dispatchAll_emission (jobs : List RetryJob) :
    Emission bus.nodeId .tick bus.seqCounter (dispatchAll env jobs bus).1.seqCounter
      (dispatchAll env jobs bus).2 := by
  induction jobs generalizing bus with
  | nil => exact .of_quiet (by simp [dispatchAll]) (Nat.le_refl _)
  | cons job rest ih =>
      have hfirst := dispatchRequest_emission env bus job.service job.payload job.qos job.corrId
        (Or.inl rfl : Call.tick = .tick ∨ _)
      obtain ⟨n, hshape⟩ :=
        dispatchRequest_shape env bus job.service job.payload job.qos job.corrId
      have hrest := ih (bus.dispatchRequest env job.service job.payload job.qos job.corrId).2.1
      rw [hshape] at hrest
      simp only [dispatchAll]
      rw [hshape] at hfirst ⊢
      exact hfirst.append hrest

theorem sendReply_emission {source : Endpoint} {data : Bytes} (dest : Endpoint) (corrId : UInt32)
    (payload : Bytes) (qos : QoSProfile) (registerRetransmit : Bool) :
    Emission bus.nodeId (.received source data) bus.seqCounter
      (bus.sendReply env dest corrId payload qos registerRetransmit).1.seqCounter
      (bus.sendReply env dest corrId payload qos registerRetransmit).2 := by
  simp only [sendReply]
  split
  · refine .single ?_ ?_
    · rw [List.flatten_singleton]
      exact .reply rfl _
    · intro effect hmem
      rw [List.flatten_singleton]
      exact ⟨qos, List.mem_singleton.mp hmem⟩
  · refine .single ?_ ?_
    · rw [List.flatten_singleton]
      exact .reply rfl _
    · intro effect hmem
      exact absurd hmem List.not_mem_nil

/-! ### The frames of a call -/

section Received

variable (source : Endpoint) (data : Bytes) (r : DecodeResult)

theorem serveRequest_emission :
    Emission bus.nodeId (.received source data) bus.seqCounter
      (bus.serveRequest env source r).1.seqCounter (bus.serveRequest env source r).2 := by
  simp only [serveRequest]
  split
  · exact sendReply_emission env bus source _ _ _ false
  · split
    · generalize hcache : AList.insert _ _ bus.replyCache = cache
      exact .cons_quiet (by simp) (by simp)
        (sendReply_emission env { bus with replyCache := cache } source _ _ _ true)
    · exact .of_quiet (by simp) (Nat.le_refl _)

theorem dispatch_emission :
    Emission bus.nodeId (.received source data) bus.seqCounter
      (bus.dispatch env source r).1.seqCounter (bus.dispatch env source r).2 := by
  have hkept := (dispatch_kept env bus source r).seqCounter
  revert hkept
  simp only [dispatch]
  split
  · intro hkept
    exact .of_quiet (by simp [deliverPublish, route]) hkept
  · intro _
    exact serveRequest_emission env bus source data r
  · intro hkept
    refine .of_quiet ?_ hkept
    intro effect hmem
    simp only [completeRequest] at hmem
    split at hmem <;> split at hmem <;> simp [sendAck, sendCtrl] at hmem
    · obtain rfl | rfl := hmem <;> simp
    · subst hmem
      simp
    · subst hmem
      simp
  · intro hkept
    exact .of_quiet (by simp) hkept

theorem publishAnswer_quiet : ∀ effect ∈ bus.publishAnswer env source r,
    ∃ dest out, effect = .answer dest out := by
  intro effect hmem
  simp only [publishAnswer] at hmem
  split at hmem
  · exact ⟨_, _, List.mem_singleton.mp hmem⟩
  · exact ⟨_, _, List.mem_singleton.mp hmem⟩
  · exact absurd hmem List.not_mem_nil

theorem receiveData_emission :
    Emission bus.nodeId (.received source data) bus.seqCounter
      (bus.receiveData env source r).1.seqCounter (bus.receiveData env source r).2 := by
  have hanswers : Emission bus.nodeId (.received source data) bus.seqCounter bus.seqCounter
      (bus.publishAnswer env source r) := by
    refine .of_quiet ?_ (Nat.le_refl _)
    intro effect hmem
    obtain ⟨_, _, rfl⟩ := publishAnswer_quiet env bus source r effect hmem
    simp
  refine receiveData_elim env ?_ ?_ ?_
  · intro _
    exact hanswers.append (dispatch_emission env bus source data r)
  · intro _
    exact hanswers
  · intro _
    exact hanswers.append (dispatch_emission env (bus.afterCheck env r) source data r)

theorem onReceived_emission :
    Emission bus.nodeId (.received source data) bus.seqCounter
      (bus.onReceived env source data).1.seqCounter (bus.onReceived env source data).2 := by
  generalize hr : MessageCodec.decode bus.sizeT data = r
  refine onReceived_elim env hr ?_ ?_ ?_ ?_ ?_ ?_ ?_
  · exact fun _ => .of_quiet (by simp) (Nat.le_refl _)
  · exact fun _ _ => .of_quiet (by simp) (Nat.le_refl _)
  · exact fun _ _ => .of_quiet (by simp) (Nat.le_refl _)
  · exact fun _ _ => .of_quiet (by simp [receivePubrec]) (Nat.le_refl _)
  · exact fun _ _ => .of_quiet (by simp [sendCtrl]) (Nat.le_refl _)
  · exact fun _ _ => .of_quiet (by simp) (Nat.le_refl _)
  · exact fun _ _ => receiveData_emission env bus source data r

end Received

theorem tick_emission :
    Emission bus.nodeId .tick bus.seqCounter (bus.tick env).1.seqCounter (bus.tick env).2 := by
  have hengine : Emission bus.nodeId .tick bus.seqCounter bus.seqCounter
      (bus.tickEngine env).2 := by
    refine .of_quiet ?_ (Nat.le_refl _)
    intro effect hmem
    simp only [tickEngine, List.mem_append, List.mem_map, List.mem_singleton] at hmem
    obtain ((⟨_, _, rfl⟩ | ⟨_, _, rfl⟩) | rfl) | ⟨_, _, rfl⟩ := hmem <;> simp
  simp only [tick]
  generalize hjobs : retryJobs env _ = jobs
  generalize hexpired : expiredRequests env _ = expired
  generalize hbus : sweepRequests env _ = swept
  have hnode : swept.nodeId = bus.nodeId := by
    rw [← hbus]
    rfl
  have hcounter : swept.seqCounter = bus.seqCounter := by
    rw [← hbus]
    rfl
  have hall := dispatchAll_emission env swept jobs
  rw [hnode, hcounter] at hall
  have hsettle : Emission bus.nodeId .tick (dispatchAll env jobs swept).1.seqCounter
      (dispatchAll env jobs swept).1.seqCounter (expired.map fun corrId =>
        Effect.settle corrId (.exception (ascii "request timeout".toList))) :=
    .of_quiet (by simp) (Nat.le_refl _)
  exact (hengine.append hall).append hsettle

theorem sendRequest_emission (service payload : Bytes) (qos : QoSProfile) (corrId : UInt32)
    (timeoutOverride : Int) :
    Emission bus.nodeId (.sendRequest service payload qos corrId timeoutOverride) bus.seqCounter
      (bus.sendRequest env service payload qos corrId timeoutOverride).1.seqCounter
      (bus.sendRequest env service payload qos corrId timeoutOverride).2 := by
  simp only [sendRequest]
  split
  · exact .of_quiet (by simp) (Nat.le_succ _)
  · generalize hrequests : AList.insert corrId _ bus.pendingRequests = requests
    have hdispatch := @dispatchRequest_emission env { bus with pendingRequests := requests }
      (.sendRequest service payload qos corrId timeoutOverride) service payload qos corrId
      (Or.inr ⟨_, _, _, _, _, rfl⟩)
    split
    · have hsettle : Emission bus.nodeId (.sendRequest service payload qos corrId timeoutOverride)
          (dispatchRequest env service payload qos corrId
            { bus with pendingRequests := requests }).2.1.seqCounter
          (dispatchRequest env service payload qos corrId
            { bus with pendingRequests := requests }).2.1.seqCounter
          [Effect.settle corrId
            (.exception (ascii "no provider for service: ".toList ++ service))] :=
        .of_quiet (by simp) (Nat.le_refl _)
      exact hdispatch.append hsettle
    · exact hdispatch

/-- The numbered frames of any call. -/
theorem exec_emission (call : Call) :
    Emission bus.nodeId call bus.seqCounter (bus.exec env call).1.seqCounter
      (bus.exec env call).2 := by
  have hkept := (exec_kept env bus call).seqCounter
  cases call with
  | publish topic payload qos flags => exact publish_emission env bus topic payload qos flags
  | received source data => exact onReceived_emission env bus source data
  | sendRequest service payload qos corrId timeout =>
      exact sendRequest_emission env bus service payload qos corrId timeout
  | tick => exact tick_emission env bus
  | deliverWill topic payload retainWill sourceId =>
      exact .of_quiet (by simp [exec, deliverWill, route]) hkept
  | createSubscriber pattern callback qos =>
      refine .of_quiet ?_ hkept
      intro effect hmem
      simp only [exec, createSubscriber] at hmem
      split at hmem
      · obtain ⟨_, _, rfl⟩ := Option.map_eq_some_iff.mp (Option.mem_toList.mp hmem)
        simp
      · exact absurd hmem List.not_mem_nil
  | stop =>
      refine .of_quiet ?_ hkept
      intro effect hmem
      simp only [exec, stop] at hmem
      split at hmem
      · obtain ⟨_, _, rfl⟩ := List.mem_map.mp hmem
        simp
      · exact absurd hmem List.not_mem_nil
  | _ => exact .of_quiet (by simp [exec]) hkept

/-! ### Answers and repetitions -/

/-- The frames that make a node send an acknowledgement of some type. -/
def Prompts : MessageType → DecodeResult → Prop
  | .ack, r => (MessageType.ofByte r.header.msgType = .publish ∧
      QoSLevel.ofByte r.header.qosLevel = .reliable) ∨
    (MessageType.ofByte r.header.msgType = .reply ∧
      QoSLevel.reliable ≤ QoSLevel.ofByte r.header.qosLevel)
  | .pubrec, r => MessageType.ofByte r.header.msgType = .publish ∧
      QoSLevel.ofByte r.header.qosLevel = .exactlyOnce
  | .pubrel, r => MessageType.ofByte r.header.msgType = .pubrec
  | .pubcomp, r => MessageType.ofByte r.header.msgType = .pubrel
  | _, _ => False

/-- The answers to a received frame. -/
inductive Answer (nodeId : UInt16) (r : DecodeResult) : Bytes → Prop
  | ack {b : MessageBus} (hb : b.nodeId = nodeId) (stamp : UInt64)
      (hframe : (MessageType.ofByte r.header.msgType = .publish ∧
          QoSLevel.ofByte r.header.qosLevel = .reliable) ∨
        (MessageType.ofByte r.header.msgType = .reply ∧
          QoSLevel.reliable ≤ QoSLevel.ofByte r.header.qosLevel)) :
      Answer nodeId r (encode (b.controlArgs .ack r.header.sequenceId) stamp)
  | pubrec {b : MessageBus} (hb : b.nodeId = nodeId) (stamp : UInt64)
      (htype : MessageType.ofByte r.header.msgType = .publish)
      (hlevel : QoSLevel.ofByte r.header.qosLevel = .exactlyOnce) :
      Answer nodeId r (encode (b.controlArgs .pubrec r.header.sequenceId) stamp)
  | pubrel {b : MessageBus} (hb : b.nodeId = nodeId) (stamp : UInt64)
      (htype : MessageType.ofByte r.header.msgType = .pubrec) :
      Answer nodeId r (encode (b.controlArgs .pubrel r.header.sequenceId .exactlyOnce) stamp)
  | pubcomp {b : MessageBus} (hb : b.nodeId = nodeId) (stamp : UInt64)
      (htype : MessageType.ofByte r.header.msgType = .pubrel) :
      Answer nodeId r (encode (b.controlArgs .pubcomp r.header.sequenceId) stamp)

/-- Where an effect that is not a numbered frame comes from. -/
def Origin (call : Call) (bus : MessageBus) : Effect → Prop
  | .answer dest out => ∃ data, call = .received dest data ∧
      (MessageCodec.decode bus.sizeT data).valid = true ∧
      Answer bus.nodeId (MessageCodec.decode bus.sizeT data) out
  | .resend r => ∃ q pm, bus.qosEngine.pending.lookup q = some pm ∧ r = QoSEngine.resendOf pm
  | .resendRel r =>
      ∃ q pm, bus.qosEngine.pendingRel.lookup q = some pm ∧ r = QoSEngine.resendOf pm
  | _ => True

theorem publishTo_origin (topic payload : Bytes) (qos : QoSProfile) (flags : UInt8)
    (eps : List Endpoint) (call : Call) (old : MessageBus) :
    ∀ effect ∈ (publishTo env topic payload qos flags eps bus).2, Origin call old effect := by
  induction eps generalizing bus with
  | nil => simp [publishTo]
  | cons ep rest ih =>
      intro effect hmem
      simp only [publishTo, List.mem_append] at hmem
      obtain hmem | hmem := hmem
      · simp only [publishOne] at hmem
        split at hmem
        · obtain rfl | hmem := List.mem_cons.mp hmem
          · trivial
          · rw [List.mem_singleton.mp hmem]
            trivial
        · rw [List.mem_singleton.mp hmem]
          trivial
      · exact ih _ effect hmem

section Received

variable (source : Endpoint) (data : Bytes) (r : DecodeResult)

theorem sendReply_origin (dest : Endpoint) (corrId : UInt32) (payload : Bytes) (qos : QoSProfile)
    (registerRetransmit : Bool) (call : Call) (old : MessageBus) :
    ∀ effect ∈ (bus.sendReply env dest corrId payload qos registerRetransmit).2,
      Origin call old effect := by
  intro effect hmem
  simp only [sendReply] at hmem
  split at hmem
  · obtain rfl | hmem := List.mem_cons.mp hmem
    · trivial
    · rw [List.mem_singleton.mp hmem]
      trivial
  · rw [List.mem_singleton.mp hmem]
    trivial

theorem serveRequest_origin (call : Call) (old : MessageBus) :
    ∀ effect ∈ (bus.serveRequest env source r).2, Origin call old effect := by
  intro effect hmem
  simp only [serveRequest] at hmem
  split at hmem
  · exact sendReply_origin env _ _ _ _ _ _ call old effect hmem
  · split at hmem
    · obtain rfl | hmem := List.mem_cons.mp hmem
      · trivial
      · exact sendReply_origin env _ _ _ _ _ _ call old effect hmem
    · exact absurd hmem List.not_mem_nil

variable {bus data r} (hr : MessageCodec.decode bus.sizeT data = r) (hvalid : r.valid = true)
include hr hvalid

/-- Dispatching a frame answers only a reliable REPLY. -/
theorem dispatch_origin {after : MessageBus} (hafter : after.nodeId = bus.nodeId) :
    ∀ effect ∈ (after.dispatch env source r).2, Origin (.received source data) bus effect := by
  intro effect hmem
  simp only [dispatch] at hmem
  split at hmem
  · rw [deliverPublish] at hmem
    rw [List.mem_singleton.mp hmem]
    trivial
  · exact serveRequest_origin env after source r _ _ effect hmem
  · rename_i htype
    simp only [completeRequest] at hmem
    have hack : QoSLevel.reliable ≤ QoSLevel.ofByte r.header.qosLevel →
        Origin (.received source data) bus (after.sendAck env source r.header.sequenceId) := by
      intro hlevel
      refine ⟨data, rfl, by rw [hr, hvalid], ?_⟩
      rw [hr]
      exact .ack hafter _ (Or.inr ⟨htype, hlevel⟩)
    split at hmem <;> split at hmem
    · rename_i hlevel
      obtain rfl | hmem := List.mem_cons.mp hmem
      · exact hack hlevel
      · rw [List.mem_singleton.mp hmem]
        trivial
    · rw [List.mem_singleton.mp hmem]
      trivial
    · rename_i hlevel
      rw [List.mem_singleton.mp hmem]
      exact hack hlevel
    · exact absurd hmem List.not_mem_nil
  · exact absurd hmem List.not_mem_nil

theorem publishAnswer_origin :
    ∀ effect ∈ bus.publishAnswer env source r, Origin (.received source data) bus effect := by
  intro effect hmem
  simp only [publishAnswer] at hmem
  split at hmem
  · rename_i htype hlevel
    rw [List.mem_singleton.mp hmem]
    refine ⟨data, rfl, by rw [hr, hvalid], ?_⟩
    rw [hr]
    exact .pubrec rfl _ htype hlevel
  · rename_i htype hlevel
    rw [List.mem_singleton.mp hmem]
    refine ⟨data, rfl, by rw [hr, hvalid], ?_⟩
    rw [hr]
    exact .ack rfl _ (Or.inl ⟨htype, hlevel⟩)
  · exact absurd hmem List.not_mem_nil

theorem receiveData_origin :
    ∀ effect ∈ (bus.receiveData env source r).2, Origin (.received source data) bus effect := by
  have hanswer := publishAnswer_origin env source hr hvalid
  refine receiveData_elim env ?_ ?_ ?_
  · intro _ effect hmem
    obtain hmem | hmem := List.mem_append.mp hmem
    · exact hanswer effect hmem
    · exact dispatch_origin env source hr hvalid rfl effect hmem
  · intro _
    exact hanswer
  · intro _ effect hmem
    have hnode : (bus.afterCheck env r).nodeId = bus.nodeId := rfl
    obtain hmem | hmem := List.mem_append.mp hmem
    · exact hanswer effect hmem
    · exact dispatch_origin env source hr hvalid hnode effect hmem

end Received

theorem onReceived_origin (source : Endpoint) (data : Bytes) :
    ∀ effect ∈ (bus.onReceived env source data).2, Origin (.received source data) bus effect := by
  generalize hr : MessageCodec.decode bus.sizeT data = r
  have hanswer : ∀ {out}, r.valid = true → Answer bus.nodeId r out →
      ∀ effect ∈ [Effect.answer source out], Origin (.received source data) bus effect := by
    intro out hvalid h effect hmem
    rw [List.mem_singleton.mp hmem]
    refine ⟨data, rfl, by rw [hr, hvalid], ?_⟩
    rwa [hr]
  refine onReceived_elim env hr ?_ ?_ ?_ ?_ ?_ ?_ ?_
  · exact fun _ _ hmem => absurd hmem List.not_mem_nil
  · exact fun _ _ _ hmem => absurd hmem List.not_mem_nil
  · intro _ _ effect hmem
    obtain ⟨resend, hresend, rfl⟩ := List.mem_map.mp hmem
    simp only [QoSEngine.onNack] at hresend
    split at hresend
    · rename_i pm hlookup
      exact ⟨_, pm, hlookup, List.mem_singleton.mp hresend⟩
    · exact absurd hresend List.not_mem_nil
  · exact fun hvalid htype => hanswer hvalid (.pubrel rfl _ htype)
  · exact fun hvalid htype => hanswer hvalid (.pubcomp rfl _ htype)
  · exact fun _ _ _ hmem => absurd hmem List.not_mem_nil
  · exact fun hvalid _ => receiveData_origin env source hr hvalid

theorem tick_origin : ∀ effect ∈ (bus.tick env).2, Origin .tick bus effect := by
  intro effect hmem
  simp only [tick, tickEngine, List.mem_append, List.mem_map, List.mem_singleton] at hmem
  obtain ((((⟨resend, hresend, rfl⟩ | ⟨resend, hresend, rfl⟩) | rfl) | ⟨_, _, rfl⟩) | hmem) |
    ⟨_, _, rfl⟩ := hmem
  · obtain ⟨q, pm, hlookup, _, _, rfl⟩ := (QoSEngine.mem_sweep_resends env.now env.sent).mp hresend
    exact ⟨q, pm, hlookup, rfl⟩
  · obtain ⟨q, pm, hlookup, _, _, rfl⟩ := (QoSEngine.mem_sweep_resends env.now env.sent).mp hresend
    exact ⟨q, pm, hlookup, rfl⟩
  · trivial
  · trivial
  · obtain ⟨_, _, _, rfl⟩ := dispatchAll_frames _ _ _ _ hmem
    trivial
  · trivial

theorem sendRequest_origin (service payload : Bytes) (qos : QoSProfile) (corrId : UInt32)
    (timeoutOverride : Int) (call : Call) (old : MessageBus) :
    ∀ effect ∈ (bus.sendRequest env service payload qos corrId timeoutOverride).2,
      Origin call old effect := by
  intro effect hmem
  have hdispatch : ∀ b : MessageBus, ∀ e ∈ (b.dispatchRequest env service payload qos corrId).2.2,
      Origin call old e := by
    intro b e he
    obtain ⟨_, _, _, rfl⟩ := mem_dispatchRequest env b he
    trivial
  simp only [sendRequest] at hmem
  split at hmem
  · obtain rfl | hmem := List.mem_cons.mp hmem
    · trivial
    · rw [List.mem_singleton.mp hmem]
      trivial
  · split at hmem
    · obtain hmem | hmem := List.mem_append.mp hmem
      · exact hdispatch _ effect hmem
      · rw [List.mem_singleton.mp hmem]
        trivial
    · exact hdispatch _ effect hmem

/-- Every effect of a call that is not a numbered frame has its origin in the frame
that was received or in the tables of the engine. -/
theorem exec_origin (call : Call) : ∀ effect ∈ (bus.exec env call).2, Origin call bus effect := by
  intro effect hmem
  cases call with
  | publish topic payload qos flags =>
      simp only [exec, publish] at hmem
      obtain rfl | hmem := List.mem_cons.mp hmem
      · trivial
      · exact publishTo_origin env _ _ _ _ _ _ _ _ effect hmem
  | received source data => exact onReceived_origin env bus source data effect hmem
  | sendRequest service payload qos corrId timeout =>
      exact sendRequest_origin env bus service payload qos corrId timeout _ _ effect hmem
  | tick => exact tick_origin env bus effect hmem
  | deliverWill topic payload retainWill sourceId =>
      simp only [exec, deliverWill] at hmem
      rw [List.mem_singleton.mp hmem]
      trivial
  | createSubscriber pattern callback qos =>
      simp only [exec, createSubscriber] at hmem
      split at hmem
      · obtain ⟨_, _, rfl⟩ := Option.map_eq_some_iff.mp (Option.mem_toList.mp hmem)
        trivial
      · exact absurd hmem List.not_mem_nil
  | stop =>
      simp only [exec, stop] at hmem
      split at hmem
      · obtain ⟨_, _, rfl⟩ := List.mem_map.mp hmem
        trivial
      · exact absurd hmem List.not_mem_nil
  | _ => exact absurd hmem List.not_mem_nil

end EmbedMq.MessageBus
