import EmbedMq.Codec.RoundTrip
import EmbedMq.Network.Basic

/-!
# The retained message of a topic over time

A node that receives a PUBLISH with RETAIN stores the message under its topic, whatever is
stored there already. If one node publishes to a topic, the numbers of the frames tell in
which order they were sent. The retained number goes back when a node accepts a frame after
a newer one, because the network or a repetition delivered it late; an ExactlyOnce frame
that the duplicate check drops does no harm.
-/

namespace EmbedMq

namespace RetainedStore

variable (s : RetainedStore) (topic : Bytes)

theorem dropOldest_lookup (t : Table Bytes RetainedEntry) :
    (dropOldest t).lookup topic = none ∨ (dropOldest t).lookup topic = t.lookup topic := by
  rw [dropOldest]
  split
  · rw [Table.lookup_erase_eq]
    split
    · exact Or.inl rfl
    · exact Or.inr rfl
  · exact Or.inr rfl

/-- Eviction takes a message away or leaves it alone. -/
theorem enforceMaxCount_lookup :
    s.enforceMaxCount.retained.lookup topic = none ∨
      s.enforceMaxCount.retained.lookup topic = s.retained.lookup topic := by
  rw [enforceMaxCount]
  split
  · exact Or.inr rfl
  · simp only
    generalize s.retained.entries.length - s.maxCount.toNat = excess
    induction excess with
    | zero => exact Or.inr rfl
    | succ n ih =>
        rw [Function.iterate_succ_apply']
        obtain hgone | hsame := dropOldest_lookup topic (dropOldest^[n] s.retained)
        · exact Or.inl hgone
        · rw [hsame]
          exact ih

theorem store_lookup (topic' : Bytes) (msg : ReceivedMessage) (now : Int) (lifespanMs : UInt32) :
    (s.store topic' msg now lifespanMs).retained.lookup topic = none ∨
      (topic = topic' ∧ ∃ e, (s.store topic' msg now lifespanMs).retained.lookup topic = some e ∧
        e.msg = msg) ∨
      (topic ≠ topic' ∧
        (s.store topic' msg now lifespanMs).retained.lookup topic = s.retained.lookup topic) := by
  let entry : RetainedEntry :=
    ⟨msg, now, if lifespanMs ≠ 0 then lifespanMs else s.defaultTtlMs⟩
  obtain hgone | hsame := enforceMaxCount_lookup
    { s with retained := s.retained.insert topic' entry } topic
  · exact Or.inl hgone
  · rw [Table.lookup_insert_eq] at hsame
    by_cases htopic : topic = topic'
    · rw [if_pos htopic] at hsame
      exact Or.inr (Or.inl ⟨htopic, _, hsame, rfl⟩)
    · rw [if_neg htopic] at hsame
      exact Or.inr (Or.inr ⟨htopic, hsame⟩)

theorem expire_lookup (now : Int) :
    (s.expire now).retained.lookup topic = none ∨
      (s.expire now).retained.lookup topic = s.retained.lookup topic := by
  rw [expire, Table.lookup_sweep]
  cases s.retained.lookup topic with
  | none => exact Or.inl rfl
  | some e =>
      simp only [Option.bind_some]
      split
      · exact Or.inl rfl
      · exact Or.inr rfl

end RetainedStore

namespace MessageBus

open MessageCodec (DecodeResult decode)

/-- The frame is a PUBLISH with RETAIN to the topic, under this number. -/
structure Retains (sz : SizeT) (data topic : Bytes) (q : UInt32) : Prop where
  valid : (decode sz data).valid = true
  type : MessageType.ofByte (decode sz data).header.msgType = .publish
  flags : (decode sz data).header.flags &&& MsgFlags.retain ≠ 0
  topic : (decode sz data).topic = topic
  number : (decode sz data).header.sequenceId = q

/-- The duplicate check drops the frame. -/
def Dropped (env : Env) (bus : MessageBus) (data : Bytes) : Prop :=
  ∃ src q, checkedKey bus.sizeT data = some (src, q) ∧
    (bus.qosEngine.isDuplicate src q env.now).1 = true

/-- The retained message of a topic. -/
def retainedEntry (bus : MessageBus) (topic : Bytes) : Option RetainedEntry :=
  bus.retainedStore.retained.lookup topic

section Calls

variable (env : Env) (bus : MessageBus) (topic : Bytes)

/-- A message that is not for the topic, or not with RETAIN, takes at most away. -/
theorem retain_entry_other (flags : UInt8) (msg : ReceivedMessage) (lifespanMs : UInt32)
    (h : flags &&& MsgFlags.retain ≠ 0 → topic ≠ msg.topic) :
    (bus.retain env flags msg lifespanMs).retainedEntry topic = none ∨
      (bus.retain env flags msg lifespanMs).retainedEntry topic = bus.retainedEntry topic := by
  rw [retain]
  split
  · next hflags =>
      obtain hgone | ⟨htopic, _⟩ | ⟨_, hsame⟩ :=
        bus.retainedStore.store_lookup topic msg.topic msg env.now lifespanMs
      · exact Or.inl hgone
      · exact absurd htopic (h hflags)
      · exact Or.inr hsame
  · exact Or.inr rfl

/-- The call stores a message of its own node under the topic. -/
def StoresOwn (topic : Bytes) : Call → Prop
  | .publish topic' _ _ flags => topic' = topic ∧ flags &&& MsgFlags.retain ≠ 0
  | .deliverWill topic' _ retainWill _ => topic' = topic ∧ retainWill = true
  | _ => False

theorem publish_entry {topic' payload : Bytes} {qos : QoSProfile} {flags : UInt8}
    (h : ¬ StoresOwn topic (.publish topic' payload qos flags)) :
    (bus.publish env topic' payload qos flags).1.retainedEntry topic = none ∨
      (bus.publish env topic' payload qos flags).1.retainedEntry topic =
        bus.retainedEntry topic := by
  simp only [publish]
  generalize htargets : targets env _ _ = eps
  obtain ⟨_, hshape⟩ := publishTo_shape env
    (retain env { bus with seqCounter := bus.seqCounter + 1 } flags
      { topic := topic', payload, sourceId := bus.nodeId,
        sequenceId := UInt32.ofNat bus.seqCounter } qos.lifespanMs)
    topic' payload qos flags eps
  rw [hshape]
  exact retain_entry_other env { bus with seqCounter := bus.seqCounter + 1 } topic flags _ _
    fun hflags htopic => h ⟨htopic.symm, hflags⟩

theorem deliverWill_entry {topic' payload : Bytes} {retainWill : Bool} {sourceId : UInt16}
    (h : ¬ StoresOwn topic (.deliverWill topic' payload retainWill sourceId)) :
    (bus.deliverWill env topic' payload retainWill sourceId).1.retainedEntry topic = none ∨
      (bus.deliverWill env topic' payload retainWill sourceId).1.retainedEntry topic =
        bus.retainedEntry topic := by
  refine retain_entry_other env { bus with seqCounter := bus.seqCounter + 1 } topic _ _ 0
    fun hflags htopic => h ⟨htopic.symm, ?_⟩
  cases retainWill with
  | true => rfl
  | false => exact absurd (by decide) hflags

theorem tick_entry : (bus.tick env).1.retainedEntry topic = none ∨
    (bus.tick env).1.retainedEntry topic = bus.retainedEntry topic := by
  simp only [tick]
  generalize retryJobs env _ = jobs
  obtain ⟨_, hshape⟩ := dispatchAll_shape env
    (sweepRequests env (expireReplyCache env
      { (bus.tickEngine env).1 with
        retainedStore := (bus.tickEngine env).1.retainedStore.expire env.now })) jobs
  rw [hshape]
  exact bus.retainedStore.expire_lookup topic env.now

/-- A call without a frame takes the retained message away or leaves it alone, unless it stores a
message of its own node. -/
theorem exec_entry {call : Call} (hreceived : ∀ source data, call ≠ .received source data)
    (hown : ¬ StoresOwn topic call) :
    (bus.exec env call).1.retainedEntry topic = none ∨
      (bus.exec env call).1.retainedEntry topic = bus.retainedEntry topic := by
  cases call with
  | received source data => exact absurd rfl (hreceived source data)
  | publish topic' payload qos flags => exact publish_entry env bus topic hown
  | deliverWill topic' payload retainWill sourceId => exact deliverWill_entry env bus topic hown
  | tick => exact tick_entry env bus topic
  | sendRequest service payload qos corrId timeout =>
      obtain ⟨_, _, h⟩ := sendRequest_shape env bus service payload qos corrId timeout
      simp only [exec, h]
      exact Or.inr rfl
  | stop =>
      simp only [exec, stop]
      split
      · exact Or.inr rfl
      · exact Or.inr rfl
  | _ => exact Or.inr rfl

end Calls

end MessageBus

open MessageBus (Retains Dropped StoresOwn publishedMessage)

variable {ι : Type}

/-- The call accepted a PUBLISH with RETAIN to the topic, under this number. -/
def LogEntry.AcceptsRetained (D : Deployment ι) (e : LogEntry ι) (topic : Bytes) (q : UInt32) :
    Prop :=
  ∃ source data callbacks, e.call = .received source data ∧
    Retains (D.sizeT e.node) data topic q ∧
    .route (publishedMessage (MessageCodec.decode (D.sizeT e.node) data)) callbacks ∈ e.effects

namespace World

/-- No other node publishes to the topic with RETAIN. -/
def PublishedBy (publisher : ι) (topic : Bytes) (l : Label ι) : Prop :=
  StoresOwn topic l.call → l.node = publisher

/-- A frame to the topic with RETAIN, unless it is dropped, arrives after none with a greater
number that was accepted. -/
def InOrder (D : Deployment ι) (publisher : ι) (topic : Bytes) (w : World ι) (l : Label ι) : Prop :=
  l.node ≠ publisher → ∀ source data q, l.call = .received source data →
    Retains (D.sizeT l.node) data topic q → ¬ Dropped l.env (w.nodes l.node) data →
    ∀ e ∈ w.log, e.node = l.node → ∀ q', e.AcceptsRetained D topic q' → q' ≤ q

variable [DecidableEq ι] {D : Deployment ι} {publisher : ι} {topic : Bytes} {w : World ι}

/-- The retained message of a receiver is from a frame that it accepted, and it accepted none with
a greater number. -/
def HoldsNewest (D : Deployment ι) (publisher : ι) (topic : Bytes) (w : World ι) : Prop :=
  ∀ n, n ≠ publisher → ∀ stored, (w.nodes n).retainedEntry topic = some stored →
    (∃ e ∈ w.log, e.node = n ∧ e.AcceptsRetained D topic stored.msg.sequenceId) ∧
      ∀ e ∈ w.log, e.node = n → ∀ q, e.AcceptsRetained D topic q → q ≤ stored.msg.sequenceId

/-- A step that keeps the retained message of a node and accepts nothing there. -/
theorem HoldsNewest.kept (h : w.HoldsNewest D publisher topic) {n : ι} (hn : n ≠ publisher)
    {stored : RetainedEntry} (hold : (w.nodes n).retainedEntry topic = some stored) (l : Label ι)
    (hquiet : l.node = n → ∀ q, ¬ LogEntry.AcceptsRetained D
      ⟨l.node, l.env, l.call, ((w.nodes l.node).exec l.env l.call).2⟩ topic q) :
    (∃ e ∈ (w.step l).log, e.node = n ∧ e.AcceptsRetained D topic stored.msg.sequenceId) ∧
      ∀ e ∈ (w.step l).log, e.node = n → ∀ q, e.AcceptsRetained D topic q →
        q ≤ stored.msg.sequenceId := by
  obtain ⟨⟨e, hmem, haccepts⟩, hmax⟩ := h n hn stored hold
  refine ⟨⟨e, List.mem_cons_of_mem _ hmem, haccepts⟩, fun e' hmem' he' q haccepts' => ?_⟩
  obtain rfl | hmem' := List.mem_cons.mp hmem'
  · exact absurd haccepts' (hquiet he' q)
  · exact hmax e' hmem' he' q haccepts'

end World

/-! ### Two messages -/

namespace Party

end Party

open Party

end EmbedMq
