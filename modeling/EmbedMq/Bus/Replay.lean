import EmbedMq.Bus.Routing

/-!
# Replay to new subscribers

A new subscriber with durability gets the retained messages that are there already.
`createSubscriber` looks up the one under the text of its pattern; what it should hand over
are the messages of all topics that the router would deliver. The two agree exactly if no
other topic matches, as it is for every pattern without wildcards.
-/

namespace EmbedMq

namespace TopicRouter

/-- With a `#` before its last segment, a pattern matches nothing. -/
theorem matchParts_inner_hash {ps : List Bytes} (hinner : [hash] ∈ ps.dropLast)
    (ts : List Bytes) : matchParts ps ts = false := by
  induction ps generalizing ts with
  | nil => exact absurd hinner List.not_mem_nil
  | cons p ps ih =>
      cases ps with
      | nil => exact absurd hinner List.not_mem_nil
      | cons q ps =>
          rw [List.dropLast_cons_cons, List.mem_cons] at hinner
          cases ts with
          | nil => rfl
          | cons t ts =>
              rw [matchParts]
              obtain hfirst | hrest := hinner
              · rw [if_pos hfirst.symm]
                rfl
              · rw [ih hrest]
                split
                · rfl
                · exact ite_self _

end TopicRouter

namespace MessageBus

open TopicRouter

/-- The retained messages of the topics that the router would deliver. -/
def matchingRetained (pattern : Bytes) (bus : MessageBus) : List (Bytes × RetainedEntry) :=
  bus.retainedStore.retained.toList.filter fun entry => delivers entry.1 pattern

/-- A topic other than the text of the pattern, with a retained message, that matches. -/
def MissedTopic (pattern topic : Bytes) (bus : MessageBus) : Prop :=
  topic ≠ pattern ∧ (bus.retainedStore.retained.lookup topic).isSome ∧
    matchWildcard pattern topic = true

/-- What `createSubscriber` replays is what the router would deliver. -/
def ReplayExact (pattern : Bytes) (callback : Nat) (qos : QoSProfile) (bus : MessageBus) : Prop :=
  (bus.createSubscriber pattern callback qos).2.Perm
    ((bus.matchingRetained pattern).map fun entry => .replay callback entry.2.msg)

section Replay

variable (pattern : Bytes) (callback : Nat) {qos : QoSProfile} (bus : MessageBus)

/-- The retained message under the text of the pattern. -/
theorem replayed_eq (hqos : qos.durability = .transientLocal) :
    (bus.createSubscriber pattern callback qos).2 =
      ((bus.retainedStore.retained.lookup pattern).map fun e =>
        Effect.replay callback e.msg).toList := by
  rw [createSubscriber, RetainedStore.get]
  simp only [if_pos hqos, Option.map_map]
  rfl

/-- What the router would deliver: the message under the text of the pattern, if the pattern
matches its own text, and those of the other topics that match. -/
theorem matchingRetained_perm :
    (bus.matchingRetained pattern).Perm
      ((if delivers pattern pattern then
          ((bus.retainedStore.retained.lookup pattern).map (Prod.mk pattern)).toList else []) ++
        (bus.matchingRetained pattern).filter fun entry => !decide (entry.1 = pattern)) := by
  have hown : (bus.matchingRetained pattern).filter (fun entry => decide (entry.1 = pattern)) =
      if delivers pattern pattern then
        bus.retainedStore.retained.toList.filter fun entry => decide (entry.1 = pattern)
      else [] := by
    rw [matchingRetained, List.filter_comm]
    split
    · next hself =>
        rw [List.filter_eq_self]
        intro entry hentry
        rw [of_decide_eq_true (List.mem_filter.mp hentry).2, hself]
    · next hself =>
        rw [List.filter_eq_nil_iff]
        intro entry hentry
        rw [of_decide_eq_true (List.mem_filter.mp hentry).2]
        exact hself
  refine (List.filter_append_perm (fun entry => decide (entry.1 = pattern)) _).symm.trans ?_
  refine List.Perm.append_right _ ?_
  rw [hown]
  split
  · exact Table.filter_key _ _
  · exact List.Perm.refl _

/-- There are other topics that match if and only if one of them is missed. -/
theorem others_eq_nil_iff (hwild : isWild pattern = true) :
    ((bus.matchingRetained pattern).filter fun entry => !decide (entry.1 = pattern)) = [] ↔
      ∀ topic, ¬ bus.MissedTopic pattern topic := by
  rw [List.filter_eq_nil_iff]
  constructor
  · rintro hnone topic ⟨hne, hsome, hmatch⟩
    obtain ⟨e, hlookup⟩ := Option.isSome_iff_exists.mp hsome
    refine hnone (topic, e) ?_ (by simp [hne])
    rw [matchingRetained, List.mem_filter, Table.mem_toList_iff, delivers, if_pos hwild]
    exact ⟨hlookup, hmatch⟩
  · rintro hnone ⟨topic, e⟩ hmem hne
    rw [matchingRetained, List.mem_filter, Table.mem_toList_iff, delivers, if_pos hwild] at hmem
    refine hnone topic ⟨by simpa using hne, ?_, hmem.2⟩
    rw [hmem.1]
    rfl

theorem replay_exact_of_plain (hqos : qos.durability = .transientLocal)
    (hplain : isWild pattern = false) : bus.ReplayExact pattern callback qos := by
  have hdelivers : ∀ topic, delivers topic pattern = decide (topic = pattern) := by
    intro topic
    rw [delivers, hplain]
    exact decide_eq_decide.mpr eq_comm
  rw [ReplayExact, replayed_eq pattern callback bus hqos, matchingRetained]
  simp only [hdelivers]
  have hkey := Table.filter_key bus.retainedStore.retained pattern
  refine (List.Perm.trans ?_ (hkey.map _).symm)
  rw [← Option.toList_map, Option.map_map]
  rfl

theorem delivers_self (hwild : isWild pattern = true) :
    delivers pattern pattern = true ↔ [hash] ∉ (split pattern slash).dropLast := by
  rw [delivers, if_pos hwild, matchWildcard, matchParts_self, decide_eq_true_iff]

/-- A pattern with wildcards: nothing else may match, and the message under its own text must. -/
theorem replay_exact_of_wild (hqos : qos.durability = .transientLocal)
    (hwild : isWild pattern = true) :
    bus.ReplayExact pattern callback qos ↔
      (∀ topic, ¬ bus.MissedTopic pattern topic) ∧
        ((bus.retainedStore.retained.lookup pattern).isSome →
          [hash] ∉ (split pattern slash).dropLast) := by
  have hperm := bus.matchingRetained_perm pattern
  rw [ReplayExact, replayed_eq pattern callback bus hqos, ← others_eq_nil_iff pattern bus hwild,
    ← delivers_self pattern hwild]
  constructor
  · intro hexact
    have hlength := hexact.length_eq
    rw [List.length_map, hperm.length_eq, List.length_append] at hlength
    by_cases hself : delivers pattern pattern = true
    · -- The message under the text of the pattern is on both sides, so nothing else is.
      rw [if_pos hself, Option.length_toList, Option.length_toList] at hlength
      refine ⟨List.length_eq_zero_iff.mp ?_, fun _ => hself⟩
      simp only [Option.isSome_map] at hlength
      omega
    · have hempty : bus.matchingRetained pattern = [] := by
        rw [delivers_self pattern hwild, not_not] at hself
        rw [matchingRetained, List.filter_eq_nil_iff]
        intro entry _
        rw [delivers, if_pos hwild, matchWildcard, matchParts_inner_hash hself]
        exact Bool.false_ne_true
      rw [hempty] at hexact ⊢
      refine ⟨rfl, fun hsome => ?_⟩
      obtain ⟨e, hlookup⟩ := Option.isSome_iff_exists.mp hsome
      rw [hlookup] at hexact
      exact absurd hexact.length_eq (Nat.succ_ne_zero 0)
  · rintro ⟨hnone, hown⟩
    rw [hnone, List.append_nil] at hperm
    refine List.Perm.trans ?_ (hperm.map _).symm
    cases hlookup : bus.retainedStore.retained.lookup pattern with
    | none => split <;> exact List.Perm.refl _
    | some e =>
        rw [hlookup] at hown
        rw [if_pos (hown rfl)]
        exact List.Perm.refl _

/-- A replay is exact if and only if the pattern has no wildcards, or no other topic is missed and
the pattern does not have a `#` before its last segment while a message is retained under its own
text. -/
theorem replay_exact_iff (hqos : qos.durability = .transientLocal) :
    bus.ReplayExact pattern callback qos ↔
      isWild pattern = false ∨
        ((∀ topic, ¬ bus.MissedTopic pattern topic) ∧
          ((bus.retainedStore.retained.lookup pattern).isSome →
            [hash] ∉ (split pattern slash).dropLast)) := by
  cases hwild : isWild pattern with
  | false =>
      have hplain := replay_exact_of_plain pattern callback bus hqos hwild
      simp [hplain]
  | true =>
      rw [replay_exact_of_wild pattern callback bus hqos hwild]
      simp

/-- The subscription to `a` gets the message that is retained on `a`. -/
theorem replay_exact_iff_plain :
    MessageBus.ReplayExact [0x61] 0 { durability := .transientLocal }
      { nodeId := 1, localHostName := [],
        retainedStore := ({} : RetainedStore).store [0x61] ⟨[0x61], [1], 0, 1, 1, 0⟩ 10 } :=
  (replay_exact_iff [0x61] 0 _ rfl).mpr (Or.inl rfl)

end Replay

/-- A message retained on `a` is not replayed to a subscription to `*`, which it matches. -/
theorem not_replay_exact :
    ¬ ∀ pattern callback qos bus, qos.durability = .transientLocal →
      MessageBus.ReplayExact pattern callback qos bus := by
  intro hclaim
  have hexact := hclaim [star] 0 { durability := .transientLocal }
    { nodeId := 1, localHostName := [],
      retainedStore := ({} : RetainedStore).store [0x61] ⟨[0x61], [1], 0, 1, 1, 0⟩ 10 } rfl
  exact absurd hexact.length_eq (by decide)

end MessageBus

end EmbedMq
