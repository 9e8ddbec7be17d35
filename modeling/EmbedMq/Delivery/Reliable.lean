import EmbedMq.Network.Mesh

/-!
# No silent loss

A Reliable PUBLISH that was registered waits in `pending` with its bytes and its destination. The
periodic task gives it up only after as many repetitions as the profile asks for, and says so. An
ACK takes it out earlier, and the ACK exists only because the target has decoded this very frame,
in a call that hands the message to its router. The call sends the ACK first. So the sender may
process it while the target still has the message to route.
-/

namespace EmbedMq

namespace BusThreads

open QoSEngine (resendOf retry)

/-! ### At the sender -/

/-- How often a frame has been sent again. -/
def resendCount (log : List BusEvent) (r : Resend) : Nat :=
  (Threads.effects Action.run log).count (.resend r)

/-- A message was sent to one target in this frame. -/
def SentTo (log : List BusEvent) (topic payload : Bytes) (qos : QoSProfile) (r : Resend) : Prop :=
  ∃ e ∈ log, ∃ flags number, e.action = .sendTo topic payload qos flags r.dest ∧
    .frame number r.dest [r.data] ∈ (e.outcome Action.run).effects ∧ UInt32.ofNat number = r.seqId

/-- The frame was registered. -/
def Registered (log : List BusEvent) (qos : QoSProfile) (r : Resend) : Prop :=
  ∃ e ∈ log, e.action = .addPending r.seqId r.data qos r.dest

/-- The frame is in `pending`, with its bytes and its destination. -/
def InPending (s : BusThreads) (r : Resend) : Prop :=
  ∃ pm, s.shared.qosEngine.pending.lookup r.seqId = some pm ∧ resendOf pm = r

/-- A timeout has reported the frame as abandoned, after `retries` repetitions of its bytes. -/
def GivenUp (log : List BusEvent) (r : Resend) (retries : Nat) : Prop :=
  ∃ post e pre, log = post ++ e :: pre ∧ e.action = .processTimeouts ∧
    (∃ ids, .abandoned ids ∈ (e.outcome Action.run).effects ∧ r.seqId ∈ ids) ∧
    retries ≤ resendCount pre r

/-- The frame is in `pending`, and its counter is not ahead of the repetitions. -/
def Counted (s : BusThreads) (r : Resend) (maxRetries : UInt32) : Prop :=
  ∃ pm, s.shared.qosEngine.pending.lookup r.seqId = some pm ∧ resendOf pm = r ∧
    pm.maxRetries = maxRetries ∧ pm.retryCount.toNat ≤ resendCount s.log r

/-- What has become of a registered frame: it waits, or an answer was processed, or it was given
up. -/
def Settled (s : BusThreads) (r : Resend) (maxRetries : UInt32) : Prop :=
  Counted s r maxRetries ∨ (∃ e ∈ s.log, Answers r.seqId e.action) ∨
    GivenUp s.log r maxRetries.toNat

variable {s : BusThreads} {cond : BusThreads → Threads.Label Env Action → Prop}
  {topic payload : Bytes} {qos : QoSProfile} {r : Resend}

theorem resendCount_cons (e : BusEvent) (log : List BusEvent) (r : Resend) :
    resendCount (e :: log) r =
      resendCount log r + (e.outcome Action.run).effects.count (.resend r) := by
  rw [resendCount, Threads.effects, List.reverse_cons, List.flatMap_append, List.count_append,
    List.flatMap_singleton]
  rfl

theorem resendCount_le_cons (e : BusEvent) (log : List BusEvent) (r : Resend) :
    resendCount log r ≤ resendCount (e :: log) r := by
  rw [resendCount_cons]
  exact Nat.le_add_right _ _

theorem resendCount_lt_cons {e : BusEvent} (log : List BusEvent)
    (h : .resend r ∈ (e.outcome Action.run).effects) :
    resendCount log r < resendCount (e :: log) r := by
  rw [resendCount_cons]
  exact Nat.lt_add_of_pos_right (List.count_pos_iff.mpr h)

theorem retryCount_le (pm : PendingMsg) (now : Int) :
    (retry pm now).retryCount.toNat ≤ pm.retryCount.toNat + 1 := by
  simp only [retry, UInt32.toNat_add]
  exact Nat.mod_le _ _

/-- Whatever is registered under the number of a message is the frame of this message. -/
theorem registered_same (h : (system.restrict cond).Reachable s)
    (hnumbers : s.shared.seqCounter ≤ 2 ^ 32) (hsent : SentTo s.log topic payload qos r)
    {data : Bytes} {qos' : QoSProfile} {dest : Endpoint}
    (ha : s.Involves (.addPending r.seqId data qos' dest)) :
    data = r.data ∧ qos' = qos ∧ dest = r.dest := by
  obtain ⟨e, he, flags, number, haction, hframe, hq⟩ := hsent
  obtain ⟨e', he', number', hq', hframe', hasker⟩ := addPending_sent h ha
  obtain ⟨rfl, rfl⟩ := frame_unique h hnumbers he he' hframe hframe' (hq.trans hq'.symm)
  rw [haction] at hasker
  obtain ⟨_, _, _, hsame⟩ | ⟨_, _, hsame⟩ := hasker
  · obtain ⟨-, -, rfl, -, rfl⟩ := Action.sendTo.inj hsame
    rw [Event.outcome, haction] at hframe hframe'
    rw [Action.sendTo_frame hframe] at hframe'
    obtain ⟨_, _, hslices⟩ := Effect.frame.inj (List.mem_singleton.mp hframe')
    exact ⟨List.singleton_inj.mp hslices, rfl, rfl⟩
  · cases hsame

section Step

variable {i : Nat} {env : Env} {a : Action} {rest : List Action}
  (hcall : s.calls[i]? = some (a :: rest))

/-- The action that registers a frame leaves it waiting. -/
theorem counted_addPending (env : Env) (i : Nat) (rest : List Action) (r : Resend)
    (qos : QoSProfile) :
    Counted (s.stepped Action.run i env (.addPending r.seqId r.data qos r.dest) rest) r
      qos.maxRetries := by
  refine ⟨QoSEngine.make r.seqId r.data qos r.dest (env.sent r.seqId), ?_, rfl, rfl,
    Nat.zero_le _⟩
  exact (QoSEngine.lookup_addPending s.shared.qosEngine r.seqId r.seqId r.data qos r.dest
    (env.sent r.seqId)).trans (if_pos rfl)

include hcall

/-- A step, seen from a frame that waits. -/
theorem settled_of_counted (h : (system.restrict cond).Reachable s)
    (hnumbers : s.shared.seqCounter ≤ 2 ^ 32) (hsent : SentTo s.log topic payload qos r)
    (hcounted : Counted s r qos.maxRetries) :
    Settled (s.stepped Action.run i env a rest) r qos.maxRetries := by
  obtain ⟨pm, hlookup, hresend, hmax, hcount⟩ := hcounted
  have hle := resendCount_le_cons ⟨i, s.shared, env, a⟩ s.log r
  have hfate := Action.fate env a hlookup
  generalize hnew : (a.run env s.shared).state.qosEngine.pending.lookup r.seqId = new at hfate
  cases hfate with
  | kept => exact Or.inl ⟨pm, hnew, hresend, hmax, Nat.le_trans hcount hle⟩
  | @registered data qos' dest ha =>
      subst ha
      obtain ⟨rfl, rfl, rfl⟩ :=
        registered_same h hnumbers hsent (Or.inl ⟨i, Threads.waiting_head hcall⟩)
      exact Or.inl (counted_addPending env i rest r qos')
  | retried hmem =>
      rw [hresend] at hmem
      refine Or.inl ⟨_, hnew, hresend, hmax, ?_⟩
      exact Nat.le_trans (retryCount_le pm _)
        (Nat.lt_of_le_of_lt hcount (resendCount_lt_cons s.log hmem))
  | answered hanswers => exact Or.inr (Or.inl ⟨_, List.mem_cons_self, hanswers⟩)
  | abandoned htimeouts hexhausted hids hseq =>
      have hretries : qos.maxRetries.toNat ≤ resendCount s.log r := by
        rw [← hmax]
        exact Nat.le_trans (of_decide_eq_true hexhausted) hcount
      have hseqId : pm.seqId = r.seqId := congrArg Resend.seqId hresend
      exact Or.inr (Or.inr ⟨[], _, s.log, rfl, htimeouts, ⟨_, hids, hseqId ▸ hseq⟩, hretries⟩)

theorem settled_stepped (h : (system.restrict cond).Reachable s)
    (hnumbers : s.shared.seqCounter ≤ 2 ^ 32) (hsent : SentTo s.log topic payload qos r)
    (hsettled : Settled s r qos.maxRetries) :
    Settled (s.stepped Action.run i env a rest) r qos.maxRetries := by
  obtain hcounted | ⟨e, he, hanswers⟩ | ⟨post, e, pre, hlog, hrest⟩ := hsettled
  · exact settled_of_counted hcall h hnumbers hsent hcounted
  · exact Or.inr (Or.inl ⟨e, List.mem_cons_of_mem _ he, hanswers⟩)
  · refine Or.inr (Or.inr ⟨⟨i, s.shared, env, a⟩ :: post, e, pre, ?_, hrest⟩)
    rw [List.cons_append, ← hlog]
    rfl

/-- A frame that was registered before a step had also been sent before it. -/
theorem sentTo_of_registered (h : (system.restrict cond).Reachable s)
    (hcond : cond s (.step i env))
    (hnumbers : (s.stepped Action.run i env a rest).shared.seqCounter ≤ 2 ^ 32)
    (hsent : SentTo (s.stepped Action.run i env a rest).log topic payload qos r)
    (hregistered : Registered s.log qos r) : SentTo s.log topic payload qos r := by
  have hafter := Threads.reachable_step h ⟨a, rest, hcall⟩ hcond
  rw [Threads.next_step hcall] at hafter
  obtain ⟨e, he, flags, number, haction, hframe, hq⟩ := hsent
  obtain ⟨registering, hregistering, hadds⟩ := hregistered
  obtain ⟨first, hfirst, number', hq', hframe', _⟩ :=
    addPending_sent h (Or.inr ⟨registering, hregistering, hadds⟩)
  have hmem : first ∈ (s.stepped Action.run i env a rest).log := List.mem_cons_of_mem _ hfirst
  obtain ⟨rfl, -⟩ :=
    frame_unique hafter hnumbers he hmem hframe hframe' (hq.trans hq'.symm)
  exact ⟨e, hfirst, flags, number, haction, hframe, hq⟩

end Step

/-- A registered frame waits with no more repetitions counted than made, until an answer with its
number is processed or it is given up. -/
theorem settled (h : (system.restrict cond).Reachable s)
    (hnumbers : s.shared.seqCounter ≤ 2 ^ 32) (hsent : SentTo s.log topic payload qos r)
    (hregistered : Registered s.log qos r) : Settled s r qos.maxRetries := by
  refine Threads.invariant (motive := fun s => s.shared.seqCounter ≤ 2 ^ 32 →
    SentTo s.log topic payload qos r → Registered s.log qos r → Settled s r qos.maxRetries)
    h ?_ ?_ ?_ hnumbers hsent hregistered
  · rintro s _ _ hnil _ _ ⟨e, he, _⟩
    rw [hnil] at he
    exact absurd he List.not_mem_nil
  · intro s actions _ hinv _ _
    exact hinv
  · intro s i env a rest hreach hinv hcall hcond hnumbers hsent hregistered
    obtain ⟨e, he, haction⟩ := hregistered
    obtain rfl | hold := List.mem_cons.mp he
    · have ha : a = .addPending r.seqId r.data qos r.dest := haction
      subst ha
      exact Or.inl (counted_addPending env i rest r qos)
    · have hbefore := sentTo_of_registered hcall hreach hcond hnumbers hsent ⟨e, hold, haction⟩
      have hbound := Nat.le_trans (Action.seqCounter_le env a s.shared) hnumbers
      exact settled_stepped hcall hreach hbound hbefore (hinv hbound hbefore ⟨e, hold, haction⟩)

end BusThreads

namespace Mesh

open BusThreads (Answers Decodes SentTo Registered GivenUp)

variable {ι : Type}

/-! ### At the target -/

/-- A message with the data of a frame. -/
structure Matches (D : Deployment ι) (n : ι) (topic payload : Bytes) (q : UInt32)
    (msg : ReceivedMessage) : Prop where
  topic : msg.topic = topic
  payload : msg.payload = payload
  sourceId : msg.sourceId = D.nodeId n
  sequenceId : msg.sequenceId = q

/-- The owner of the destination has handed the message to its router. -/
def Routed (D : Deployment ι) (m : Mesh ι) (n : ι) (topic payload : Bytes) (r : Resend) : Prop :=
  ∃ target, D.owner r.dest = some target ∧ ∃ msg, Matches D n topic payload r.seqId msg ∧
    ∃ e ∈ (m.nodes target).log, e.action = .route msg

/-- The owner of the destination has decoded the frame, in a call that has handed the message to
the router or has this still to do. -/
def Taken (D : Deployment ι) (m : Mesh ι) (n : ι) (topic payload : Bytes) (r : Resend) : Prop :=
  ∃ target, D.owner r.dest = some target ∧ ∃ msg, Matches D n topic payload r.seqId msg ∧
    ∃ e ∈ (m.nodes target).log, (∃ source, e.action = .receive source r.data) ∧
      ((∃ e' ∈ (m.nodes target).log, e'.call = e.call ∧ e'.action = .route msg) ∨
        (m.nodes target).Waiting e.call (.route msg))

/-- Every Reliable PUBLISH frame that was registered still waits, or was routed by its target, or
was given up. -/
def NoSilentLoss (D : Deployment ι) (m : Mesh ι) : Prop :=
  ∀ n topic payload qos r, qos.level = .reliable → SentTo (m.nodes n).log topic payload qos r →
    Registered (m.nodes n).log qos r → (m.nodes n).InPending r ∨
      Routed D m n topic payload r ∨ GivenUp (m.nodes n).log r qos.maxRetries.toNat

/-- The same, if it is enough that the target is about to route the message. -/
def NoFrameForgotten (D : Deployment ι) (m : Mesh ι) : Prop :=
  ∀ n topic payload qos r, qos.level = .reliable → SentTo (m.nodes n).log topic payload qos r →
    Registered (m.nodes n).log qos r → (m.nodes n).InPending r ∨
      Taken D m n topic payload r ∨ GivenUp (m.nodes n).log r qos.maxRetries.toNat

variable {D : Deployment ι} {m : Mesh ι} {n : ι} {topic payload : Bytes} {r : Resend}

/-- When the calls of the target have returned, what it has taken is routed. -/
theorem Taken.routed (h : Taken D m n topic payload r)
    (hidle : ∀ target, D.owner r.dest = some target → ∀ i a, ¬ (m.nodes target).Waiting i a) :
    Routed D m n topic payload r := by
  obtain ⟨target, howner, msg, hmatches, e, _, _, ⟨e', he', _, hroute⟩ | hwaiting⟩ := h
  · exact ⟨target, howner, msg, hmatches, e', he', hroute⟩
  · exact absurd hwaiting (hidle target howner e.call _)

/-- A call that decodes a Reliable PUBLISH goes on to route it. -/
theorem route_mem_received {source : Endpoint} {r : MessageCodec.DecodeResult}
    (hvalid : r.valid = true) (htype : MessageType.ofByte r.header.msgType = .publish)
    (hlevel : QoSLevel.ofByte r.header.qosLevel = .reliable) :
    .route (MessageBus.publishedMessage r) ∈ Action.received source r := by
  have honce : QoSLevel.ofByte r.header.qosLevel ≠ .exactlyOnce := by
    rw [hlevel]
    rintro ⟨⟩
  rw [Action.received, if_pos hvalid, htype]
  refine List.mem_append_right _ ?_
  rw [if_neg honce, Action.dispatched, htype]
  exact List.mem_cons_of_mem _ List.mem_cons_self

variable [DecidableEq ι]

/-- An answer to the frame of a Reliable message shows that its target has taken the message. -/
theorem taken_of_answered (h : (fitting D).Reachable m) (hnumbers : m.NumbersLeft)
    {qos : QoSProfile} (hlevel : qos.level = .reliable)
    (hsent : SentTo (m.nodes n).log topic payload qos r) {e : BusEvent}
    (he : e ∈ (m.nodes n).log) (hanswers : Answers r.seqId e.action) :
    Taken D m n topic payload r := by
  have hnode := fitting_node h n
  obtain ⟨sending, hsending, flags, number, haction, hframe, hq⟩ := hsent
  obtain ⟨asker, hasker, source, answer, hdecodes, hseq, htype⟩ :=
    BusThreads.answer_decoded hnode (Or.inr ⟨e, he, rfl⟩) hanswers
  obtain ⟨target, howner, e', he', source', r', hreceive, hdecodes', hprompts, hcarries⟩ :=
    answered_frame h hnumbers hsending haction hframe hasker hdecodes rfl htype
      (hseq.trans hq.symm)
  rw [List.flatten_singleton] at hreceive
  have hreliable := hcarries.level.trans hlevel
  obtain ⟨data, hreceive', rfl, hvalid⟩ := hdecodes'
  obtain ⟨-, rfl⟩ := Action.receive.inj (hreceive'.symm.trans hreceive)
  refine ⟨target, howner, MessageBus.publishedMessage _, ⟨hcarries.topic, hcarries.payload,
    hcarries.sourceId, hcarries.sequenceId.trans hq⟩, e', he', ⟨_, hreceive⟩, ?_⟩
  refine Threads.run_or_waiting (fitting_node h target) he' ?_
  rw [Event.outcome, hreceive]
  exact route_mem_received hvalid hcarries.type hreliable

/-- In every run whose BestEffort messages fit the header, a Reliable PUBLISH frame leaves
`pending` only after its target has decoded it, in a call that has routed the message or is about
to, or by being reported as abandoned after the repetitions that its profile asks for. -/
theorem noFrameForgotten (h : (fitting D).Reachable m) (hnumbers : m.NumbersLeft) :
    m.NoFrameForgotten D := by
  intro n topic payload qos r hlevel hsent hregistered
  obtain ⟨pm, hlookup, hresend, _⟩ | ⟨e, he, hanswers⟩ | hgiven :=
    BusThreads.settled (fitting_node h n) (hnumbers n) hsent hregistered
  · exact Or.inl ⟨pm, hlookup, hresend⟩
  · exact Or.inr (Or.inl (taken_of_answered h hnumbers hlevel hsent he hanswers))
  · exact Or.inr (Or.inr hgiven)

end Mesh

/-! ### A frame that is acknowledged before it is routed -/

namespace Party

open BusThreads (SentTo Registered)

/-- A message is sent to its subscriber, whose call sends the ACK and goes no further. The sender
processes the ACK. -/
def ackedTurns : List Turn :=
  List.flatten [[begins sender (.peerDiscovered (receiverInfo [[0x74]]))], goes sender 1 0,
    [begins sender (.publish [0x74] [42] .reliable 0)], goes sender 6 1,
    [begins receiver (.received (endpoint sender) (firstFrame .reliable))], goes receiver 2 0,
    [begins sender (.received (endpoint receiver) (controlFrame receiver .ack))], goes sender 2 2]

/-- The frame of the message. -/
def firstResend : Resend := ⟨2, endpoint receiver, firstFrame .reliable⟩

/-- A test for the event that sends a frame. -/
def sendsFirst (e : BusEvent) : Bool :=
  match e.action with
  | .sendTo topic payload qos _ ep =>
      decide (topic = [0x74] ∧ payload = [42] ∧ qos = .reliable ∧ ep = endpoint receiver) &&
        decide (.frame 2 (endpoint receiver) [firstFrame .reliable] ∈
          (e.outcome Action.run).effects)
  | _ => false

/-- A test for the event that registers it. -/
def registersFirst (e : BusEvent) : Bool :=
  match e.action with
  | .addPending seqId data qos dest => decide (seqId = 2 ∧ data = firstFrame .reliable ∧
      qos = .reliable ∧ dest = endpoint receiver)
  | _ => false

def routes (e : BusEvent) : Bool :=
  match e.action with
  | .route _ => true
  | _ => false

def looksForTimeouts (e : BusEvent) : Bool :=
  match e.action with
  | .processTimeouts => true
  | _ => false

theorem sentTo_of_any {log : List BusEvent} (h : log.any sendsFirst = true) :
    SentTo log [0x74] [42] .reliable firstResend := by
  obtain ⟨e, he, hsends⟩ := List.any_eq_true.mp h
  simp only [sendsFirst] at hsends
  split at hsends
  · rename_i flags _ haction
    obtain ⟨hargs, hframe⟩ := Bool.and_eq_true_iff.mp hsends
    obtain ⟨rfl, rfl, rfl, rfl⟩ := of_decide_eq_true hargs
    exact ⟨e, he, flags, 2, haction, of_decide_eq_true hframe, rfl⟩
  · exact absurd hsends Bool.false_ne_true

theorem registered_of_any {log : List BusEvent} (h : log.any registersFirst = true) :
    Registered log .reliable firstResend := by
  obtain ⟨e, he, hregisters⟩ := List.any_eq_true.mp h
  simp only [registersFirst] at hregisters
  split at hregisters
  · rename_i haction
    obtain ⟨rfl, rfl, rfl, rfl⟩ := of_decide_eq_true hregisters
    exact ⟨e, he, haction⟩
  · exact absurd hregisters Bool.false_ne_true

theorem ackedTurns_reachable : (Mesh.fitting deployment).Reachable (meshAfter ackedTurns) :=
  meshAfter_reachable (by decide +kernel)

theorem ackedTurns_numbersLeft : (meshAfter ackedTurns).NumbersLeft := by
  rintro (_ | _) <;> decide +kernel

end Party

open Party

/-- The sender has dropped its frame, and the target has not routed the message yet. -/
theorem Mesh.noFrameForgotten_acked : (meshAfter ackedTurns).NoFrameForgotten deployment ∧
    (((meshAfter ackedTurns).nodes sender).shared.qosEngine.pending.lookup 2).isNone = true :=
  ⟨Mesh.noFrameForgotten ackedTurns_reachable ackedTurns_numbersLeft, by decide +kernel⟩

/-- An ACK may be processed before the message is routed. -/
theorem Mesh.dropped_before_routed : ¬ ∀ m : Mesh Party, (Mesh.system deployment).Reachable m →
    m.NumbersLeft → m.NoSilentLoss deployment := by
  intro hclaim
  have hloss := hclaim _ ackedTurns_reachable.of_restrict ackedTurns_numbersLeft sender [0x74]
    [42] .reliable firstResend rfl (sentTo_of_any (by decide +kernel))
    (registered_of_any (by decide +kernel))
  obtain ⟨pm, hlookup, _⟩ | ⟨target, howner, msg, _, e, he, hroute⟩ | ⟨post, e, pre, hlog, ht, _⟩ :=
    hloss
  · have hnone : ((meshAfter ackedTurns).nodes sender).shared.qosEngine.pending.lookup 2 = none :=
      Option.isNone_iff_eq_none.mp (by decide +kernel)
    cases hnone.symm.trans hlookup
  · obtain rfl : receiver = target := Option.some.inj howner
    have hnone : ((meshAfter ackedTurns).nodes receiver).log.any routes = false := by
      decide +kernel
    exact List.any_eq_false.mp hnone e he (by rw [routes, hroute])
  · have hnone : ((meshAfter ackedTurns).nodes sender).log.any looksForTimeouts = false := by
      decide +kernel
    have he : e ∈ ((meshAfter ackedTurns).nodes sender).log := by
      rw [hlog]
      exact List.mem_append_right _ List.mem_cons_self
    exact List.any_eq_false.mp hnone e he (by rw [looksForTimeouts, ht])

end EmbedMq
