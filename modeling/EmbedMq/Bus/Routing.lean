import EmbedMq.Bus.Publishing

/-!
# Routing over whole runs

The subscriptions of a router are those that were added and not removed since. The
router keeps them in two places, by their topic and in a list of patterns; `Represents`
says how the two hold a list of subscriptions, and every call keeps it.

A peer announces the patterns of its subscriptions, and a sender picks its targets from
what was announced. It does not treat the two kinds of patterns as the router does, and
so sends messages that no subscription of the target gets.
-/

namespace EmbedMq

namespace TopicRouter

/-- The calls that a router takes. -/
inductive Call where
  | add (pattern : Bytes) (callback : Nat) (qos : QoSProfile)
  | remove (id : UInt64)
  | route (topic : Bytes)
  deriving DecidableEq

/-- The router after a call. -/
def exec : Call → TopicRouter → TopicRouter
  | .add pattern callback qos, r => (r.addSubscription pattern callback qos).2
  | .remove id, r => r.removeSubscription id
  | .route _, r => r

/-- The router after some calls. -/
def run : List Call → TopicRouter → TopicRouter
  | [], r => r
  | call :: rest, r => run rest (r.exec call)

def isWild (pattern : Bytes) : Bool := pattern.contains star || pattern.contains hash

/-- The subscriptions that are added and not removed later on. The ids are handed out in order,
from `next` on. -/
def live (next : UInt64) : List Call → List Subscription
  | [] => []
  | .add pattern callback qos :: rest =>
      if .remove next ∈ rest then live (next + 1) rest
      else ⟨next, pattern, isWild pattern, callback, qos⟩ :: live (next + 1) rest
  | .remove _ :: rest => live next rest
  | .route _ :: rest => live next rest

theorem addSubscription_eq (r : TopicRouter) (pattern : Bytes) (callback : Nat)
    (qos : QoSProfile) :
    r.addSubscription pattern callback qos =
      if isWild pattern then
        (r.nextId, { r with
          nextId := r.nextId + 1
          wildcardSubs := r.wildcardSubs ++
            [⟨r.nextId, pattern, isWild pattern, callback, qos⟩] })
      else
        (r.nextId, { r with
          nextId := r.nextId + 1
          exactSubs := r.exactSubs.insert pattern ((r.exactSubs.lookup pattern).getD [] ++
            [⟨r.nextId, pattern, isWild pattern, callback, qos⟩]) }) :=
  rfl

/-- The pattern of a subscription matches a topic. -/
def delivers (topic pattern : Bytes) : Bool :=
  if isWild pattern then matchWildcard pattern topic else decide (pattern = topic)

/-! ### The two places -/

/-- The router holds these subscriptions. -/
structure Represents (r : TopicRouter) (subs : List Subscription) : Prop where
  exact : ∀ topic, (r.exactSubs.lookup topic).getD [] =
    subs.filter fun s => !s.isWildcard && decide (s.pattern = topic)
  wildcard : r.wildcardSubs = subs.filter (·.isWildcard)
  wild : ∀ s ∈ subs, s.isWildcard = isWild s.pattern

namespace Represents

variable {r : TopicRouter} {subs : List Subscription} (h : Represents r subs)
include h

theorem add (pattern : Bytes) (callback : Nat) (qos : QoSProfile) :
    Represents (r.addSubscription pattern callback qos).2
      (subs ++ [⟨r.nextId, pattern, isWild pattern, callback, qos⟩]) := by
  have hnew : ∀ s ∈ subs ++ [⟨r.nextId, pattern, isWild pattern, callback, qos⟩],
      s.isWildcard = isWild s.pattern := by
    intro s hs
    obtain hs | hs := List.mem_append.mp hs
    · exact h.wild s hs
    · rw [List.mem_singleton.mp hs]
  rw [addSubscription_eq]
  cases hwild : isWild pattern with
  | true =>
      rw [hwild] at hnew
      refine ⟨fun topic => ?_, ?_, hnew⟩
      · rw [List.filter_append]
        simp [h.exact topic]
      · rw [List.filter_append]
        simp [h.wildcard]
  | false =>
      rw [hwild] at hnew
      refine ⟨fun topic => ?_, ?_, hnew⟩
      · simp only [Bool.false_eq_true, if_false, Table.lookup_insert_eq, List.filter_append]
        by_cases htopic : topic = pattern
        · rw [if_pos htopic, htopic]
          simp [h.exact pattern]
        · rw [if_neg htopic, h.exact topic]
          simp [Ne.symm htopic]
      · rw [List.filter_append]
        simp [h.wildcard]

theorem remove (id : UInt64) :
    Represents (r.removeSubscription id) (subs.filter fun s => s.id ≠ id) := by
  refine ⟨fun topic => ?_, ?_, fun s hs => h.wild s (List.mem_of_mem_filter hs)⟩
  · have hlookup : ((r.removeSubscription id).exactSubs.lookup topic).getD [] =
        ((r.exactSubs.lookup topic).getD []).filter fun s => s.id ≠ id := by
      rw [removeSubscription, Table.lookup_sweep]
      cases r.exactSubs.lookup topic <;> rfl
    rw [hlookup, h.exact topic, List.filter_comm]
  · rw [removeSubscription, h.wildcard, List.filter_comm]

/-- The callbacks of the subscriptions that match, in some order. -/
theorem route (topic : Bytes) :
    (r.route topic).Perm ((subs.filter fun s => delivers topic s.pattern).map (·.callback)) := by
  have hexact : (subs.filter fun s => delivers topic s.pattern).filter (fun s => !s.isWildcard) =
      (r.exactSubs.lookup topic).getD [] := by
    rw [h.exact topic, List.filter_filter]
    refine List.filter_congr fun s hs => ?_
    rw [delivers, ← h.wild s hs]
    cases s.isWildcard <;> simp
  have hwildcard : (subs.filter fun s => delivers topic s.pattern).filter (·.isWildcard) =
      r.wildcardSubs.filter fun s => matchWildcard s.pattern topic := by
    rw [h.wildcard, List.filter_filter, List.filter_filter]
    refine List.filter_congr fun s hs => ?_
    rw [delivers, ← h.wild s hs]
    cases s.isWildcard <;> simp
  rw [TopicRouter.route, ← hexact, ← hwildcard, ← List.map_append]
  refine List.Perm.map _ (List.Perm.trans List.perm_append_comm ?_)
  exact List.filter_append_perm _ _

theorem mem_allTopics {pattern : Bytes} :
    pattern ∈ r.allTopics ↔ ∃ s ∈ subs, s.pattern = pattern := by
  have hexact : pattern ∈ (r.exactSubs.toList.filterMap fun entry =>
      if entry.2.isEmpty then none else some entry.1) ↔
      ∃ s ∈ subs, s.isWildcard = false ∧ s.pattern = pattern := by
    have hstored : (∃ subs', r.exactSubs.lookup pattern = some subs' ∧ subs' ≠ []) ↔
        (r.exactSubs.lookup pattern).getD [] ≠ [] := by
      cases r.exactSubs.lookup pattern <;> simp
    have hne : (r.exactSubs.lookup pattern).getD [] ≠ [] ↔
        ∃ s ∈ subs, s.isWildcard = false ∧ s.pattern = pattern := by
      rw [h.exact pattern, Ne, List.filter_eq_nil_iff]
      simp
    rw [← hne, ← hstored]
    simp [Table.mem_toList_iff]
  have hwildcard : pattern ∈ r.wildcardSubs.map (·.pattern) ↔
      ∃ s ∈ subs, s.isWildcard = true ∧ s.pattern = pattern := by
    rw [h.wildcard]
    simp [and_assoc]
  rw [allTopics, List.mem_append, hexact, hwildcard]
  constructor
  · rintro (⟨s, hs, _, hpattern⟩ | ⟨s, hs, _, hpattern⟩)
    · exact ⟨s, hs, hpattern⟩
    · exact ⟨s, hs, hpattern⟩
  · rintro ⟨s, hs, hpattern⟩
    cases hwild : s.isWildcard with
    | false => exact Or.inl ⟨s, hs, hwild, hpattern⟩
    | true => exact Or.inr ⟨s, hs, hwild, hpattern⟩

end Represents

theorem nextId_add (r : TopicRouter) (pattern : Bytes) (callback : Nat) (qos : QoSProfile) :
    (r.addSubscription pattern callback qos).2.nextId = r.nextId + 1 := by
  rw [addSubscription]
  dsimp only
  split <;> rfl

/-- After some calls, a router holds what it held before and was not removed, and what was added
and not removed. -/
theorem Represents.run {r : TopicRouter} {subs : List Subscription} (h : Represents r subs)
    (calls : List Call) :
    Represents (run calls r)
      ((subs.filter fun s => decide (.remove s.id ∉ calls)) ++ live r.nextId calls) := by
  induction calls generalizing r subs with
  | nil => simpa [TopicRouter.run, live] using h
  | cons call rest ih =>
      cases call with
      | add pattern callback qos =>
          have hrest := ih (h.add pattern callback qos)
          rw [nextId_add, List.filter_append, List.append_assoc] at hrest
          by_cases hremoved : .remove r.nextId ∈ rest
          · simpa [TopicRouter.run, exec, live, hremoved] using hrest
          · simpa [TopicRouter.run, exec, live, hremoved] using hrest
      | remove id =>
          have hrest := ih (h.remove id)
          rw [List.filter_filter] at hrest
          have hnext : (r.removeSubscription id).nextId = r.nextId := rfl
          rw [hnext] at hrest
          simpa [TopicRouter.run, exec, live, Bool.and_comm] using hrest
      | route topic =>
          have hrest := ih h
          simpa [TopicRouter.run, exec, live] using hrest

/-- The router after some calls holds the live subscriptions. -/
theorem represents_live (calls : List Call) : Represents (run calls {}) (live 1 calls) := by
  have hempty : Represents {} [] := ⟨fun _ => rfl, rfl, by simp⟩
  exact hempty.run calls

theorem hasSubscribers_iff (r : TopicRouter) (topic : Bytes) :
    r.hasSubscribers topic = true ↔ 0 < (r.route topic).length := by
  rw [hasSubscribers, route, List.length_append, List.length_map, List.length_map,
    Nat.add_pos_iff_pos_or_pos, List.length_pos_iff, List.length_filter_pos_iff]
  simp

/-- The live subscriptions that match a topic. -/
def matching (calls : List Call) (topic : Bytes) : List Subscription :=
  (live 1 calls).filter fun s => delivers topic s.pattern

/-- After any calls, a message is handed once to the callback of every live subscription that
matches and to no other, `hasSubscribers` tells whether there are any, and `allTopics` lists the
patterns of the live subscriptions. -/
theorem route_exact (calls : List Call) (topic : Bytes) :
    ((run calls {}).route topic).Perm ((matching calls topic).map (·.callback)) ∧
      ((run calls {}).route topic).length = (matching calls topic).length ∧
      ((run calls {}).hasSubscribers topic = true ↔ 0 < (matching calls topic).length) ∧
      ∀ pattern, pattern ∈ (run calls {}).allTopics ↔ ∃ s ∈ live 1 calls, s.pattern = pattern := by
  have hlive := represents_live calls
  have hroute := hlive.route topic
  have hlength := hroute.length_eq
  rw [List.length_map] at hlength
  refine ⟨hroute, hlength, ?_, fun pattern => hlive.mem_allTopics⟩
  rw [matching, ← hlength]
  exact hasSubscribers_iff _ topic

/-! ### Segments -/

/-- The second text is the first one with a slash at the end, which `split` does not see. -/
def ExtraSlash (shorter longer : Bytes) : Prop :=
  shorter ≠ [] ∧ shorter.getLast? ≠ some slash ∧ longer = shorter ++ [slash]

instance (shorter longer : Bytes) : Decidable (ExtraSlash shorter longer) :=
  inferInstanceAs (Decidable (_ ∧ _ ∧ _))

/-- The text with a slash after its last segment. -/
def closed (s : Bytes) : Bytes :=
  if s = [] ∨ s.getLast? = some slash then s else s ++ [slash]

theorem flatten_splitLoop {token : Bytes} (htoken : token.getLast? ≠ some slash) (s : Bytes) :
    ((splitLoop slash token s).map (· ++ [slash])).flatten = closed (token ++ s) := by
  induction s generalizing token with
  | nil =>
      cases token with
      | nil => rfl
      | cons c rest =>
          rw [List.append_nil, closed, if_neg (by simp [htoken])]
          simp [splitLoop]
  | cons c rest ih =>
      rw [splitLoop]
      by_cases hc : c = slash
      · rw [if_pos hc, List.map_cons, List.flatten_cons, ih (by simp), hc]
        -- The last byte of the whole is the last byte of what follows the slash.
        cases rest with
        | nil => simp [closed]
        | cons d rest =>
            have hlast : (token ++ slash :: d :: rest).getLast? = (d :: rest).getLast? := by
              rw [List.getLast?_append_cons, List.getLast?_cons_cons]
            rw [closed, closed, hlast]
            by_cases hslash : (d :: rest).getLast? = some slash
            · simp [hslash]
            · simp [hslash]
      · rw [if_neg hc, ih (by simpa using hc), List.append_assoc, List.singleton_append]

theorem getLast?_ne_slash_of_cons {c : UInt8} {rest : Bytes}
    (hlast : (c :: rest).getLast? ≠ some slash) : rest.getLast? ≠ some slash := by
  intro hslash
  refine hlast ?_
  rw [List.getLast?_cons, hslash]
  rfl

theorem splitLoop_extraSlash {token s : Bytes} (hs : s = [] → token ≠ [])
    (hlast : s.getLast? ≠ some slash) :
    splitLoop slash token (s ++ [slash]) = splitLoop slash token s := by
  induction s generalizing token with
  | nil =>
      have htoken : token.isEmpty = false := by simpa using hs rfl
      simp [splitLoop, htoken]
  | cons c rest ih =>
      have hrest := getLast?_ne_slash_of_cons hlast
      rw [List.cons_append, splitLoop, splitLoop]
      by_cases hc : c = slash
      · have hne : rest ≠ [] := by
          rintro rfl
          rw [hc] at hlast
          exact hlast rfl
        rw [if_pos hc, if_pos hc, ih (fun h => absurd h hne) hrest]
      · rw [if_neg hc, if_neg hc, ih (fun _ => by simp) hrest]

/-- Two texts have the same segments if they differ at most in a slash at the end. -/
theorem split_eq_iff {s t : Bytes} :
    split s slash = split t slash ↔ s = t ∨ ExtraSlash s t ∨ ExtraSlash t s := by
  constructor
  · intro h
    have hclosed : closed s = closed t := by
      have hs := @flatten_splitLoop [] (by simp) s
      have ht := @flatten_splitLoop [] (by simp) t
      rw [← List.nil_append s, ← List.nil_append t, ← hs, ← ht]
      rw [split, split] at h
      rw [h]
    rw [closed, closed] at hclosed
    by_cases hs : s = [] ∨ s.getLast? = some slash
    · rw [if_pos hs] at hclosed
      by_cases ht : t = [] ∨ t.getLast? = some slash
      · rw [if_pos ht] at hclosed
        exact Or.inl hclosed
      · rw [if_neg ht] at hclosed
        exact Or.inr (Or.inr ⟨fun h => ht (Or.inl h), fun h => ht (Or.inr h), hclosed⟩)
    · rw [if_neg hs] at hclosed
      by_cases ht : t = [] ∨ t.getLast? = some slash
      · rw [if_pos ht] at hclosed
        exact Or.inr (Or.inl ⟨fun h => hs (Or.inl h), fun h => hs (Or.inr h), hclosed.symm⟩)
      · rw [if_neg ht] at hclosed
        exact Or.inl (List.append_cancel_right hclosed)
  · rintro (rfl | ⟨hne, hlast, rfl⟩ | ⟨hne, hlast, rfl⟩)
    · rfl
    · exact (splitLoop_extraSlash (fun h => absurd h hne) hlast).symm
    · exact splitLoop_extraSlash (fun h => absurd h hne) hlast

theorem mem_of_mem_splitLoop {delim : UInt8} {token s segment : Bytes}
    (h : segment ∈ splitLoop delim token s) {c : UInt8} (hc : c ∈ segment) : c ∈ token ∨ c ∈ s := by
  induction s generalizing token with
  | nil =>
      rw [splitLoop] at h
      split at h
      · exact absurd h List.not_mem_nil
      · rw [List.mem_singleton.mp h] at hc
        exact Or.inl hc
  | cons d rest ih =>
      rw [splitLoop] at h
      split at h
      · obtain rfl | h := List.mem_cons.mp h
        · exact Or.inl hc
        · obtain hnil | hrest := ih h
          · exact absurd hnil List.not_mem_nil
          · exact Or.inr (List.mem_cons_of_mem _ hrest)
      · obtain htoken | hrest := ih h
        · obtain htoken | hd := List.mem_append.mp htoken
          · exact Or.inl htoken
          · exact Or.inr (List.mem_cons.mpr (Or.inl (List.mem_singleton.mp hd)))
        · exact Or.inr (List.mem_cons_of_mem _ hrest)

/-! ### Matching without wildcards -/

theorem matchParts_plain {ps : List Bytes} (hplain : ∀ p ∈ ps, p ≠ [star] ∧ p ≠ [hash])
    (ts : List Bytes) : matchParts ps ts = decide (ps = ts) := by
  induction ps generalizing ts with
  | nil => cases ts <;> simp [matchParts]
  | cons p ps ih =>
      obtain ⟨hstar, hhash⟩ := hplain p List.mem_cons_self
      have hrest := ih fun q hq => hplain q (List.mem_cons_of_mem _ hq)
      cases ts with
      | nil => cases ps <;> simp [matchParts, hhash]
      | cons t ts =>
          rw [matchParts, if_neg hhash, hrest ts]
          by_cases ht : p = t
          · simp [ht]
          · simp [ht, hstar]

theorem plain_segments {pattern : Bytes} (hplain : isWild pattern = false) :
    ∀ p ∈ split pattern slash, p ≠ [star] ∧ p ≠ [hash] := by
  obtain ⟨hstar, hhash⟩ := Bool.or_eq_false_iff.mp hplain
  intro p hp
  constructor
  · rintro rfl
    obtain h | h := mem_of_mem_splitLoop hp List.mem_cons_self
    · exact absurd h List.not_mem_nil
    · rw [List.contains_eq_mem, decide_eq_false_iff_not] at hstar
      exact hstar h
  · rintro rfl
    obtain h | h := mem_of_mem_splitLoop hp List.mem_cons_self
    · exact absurd h List.not_mem_nil
    · rw [List.contains_eq_mem, decide_eq_false_iff_not] at hhash
      exact hhash h

theorem matchWildcard_plain {pattern : Bytes} (hplain : isWild pattern = false) (topic : Bytes) :
    matchWildcard pattern topic = true ↔
      pattern = topic ∨ ExtraSlash pattern topic ∨ ExtraSlash topic pattern := by
  rw [matchWildcard, matchParts_plain (plain_segments hplain), decide_eq_true_iff, split_eq_iff]

/-- A pattern matches itself unless it has a `#` before its last segment. -/
theorem matchParts_self (ps : List Bytes) :
    matchParts ps ps = decide ([hash] ∉ ps.dropLast) := by
  induction ps with
  | nil => rfl
  | cons p ps ih =>
      rw [matchParts]
      cases ps with
      | nil =>
          simp [matchParts]
      | cons q ps =>
          by_cases hp : p = [hash]
          · simp [hp]
          · simp [hp, ih, Ne.symm hp]

/-! ### Targets and subscribers -/

/-- The sender takes the pattern for a match although no subscription to it gets the message: the
two differ in a slash at the end, or the topic is taken literally and has a `#` before its last
segment. -/
def Misleading (topic pattern : Bytes) : Prop :=
  (isWild pattern = false ∧ (ExtraSlash pattern topic ∨ ExtraSlash topic pattern)) ∨
    (pattern = topic ∧ [hash] ∈ (split topic slash).dropLast)

theorem announced_iff (topic pattern : Bytes) :
    (matchWildcard pattern topic || decide (pattern = topic)) = true ↔
      delivers topic pattern = true ∨ Misleading topic pattern := by
  rw [Bool.or_eq_true, decide_eq_true_iff, delivers, Misleading]
  cases hwild : isWild pattern with
  | false =>
      rw [matchWildcard_plain hwild]
      simp only [Bool.false_eq_true, if_false, decide_eq_true_iff, true_and]
      tauto
  | true =>
      simp only [if_true, Bool.true_eq_false, false_and, false_or]
      constructor
      · rintro (hmatch | rfl)
        · exact Or.inl hmatch
        · by_cases hself : [hash] ∈ (split pattern slash).dropLast
          · exact Or.inr ⟨rfl, hself⟩
          · refine Or.inl ?_
            rw [matchWildcard, matchParts_self]
            exact decide_eq_true hself
      · rintro (hmatch | ⟨hsame, _⟩)
        · exact Or.inl hmatch
        · exact Or.inr hsame

end TopicRouter

namespace MessageBus

open TopicRouter

/-- A peer that has announced the topics of its router, after the router has taken some calls. -/
def announcing (calls : List TopicRouter.Call) (peer : PeerInfo) : PeerInfo :=
  { peer with subscribedTopics := (TopicRouter.run calls {}).allTopics }

theorem target_announcing_iff (calls : List TopicRouter.Call) (peer : PeerInfo) (topic : Bytes) :
    Target topic (announcing calls peer) ↔
      (∃ s ∈ live 1 calls, delivers topic s.pattern = true ∨ Misleading topic s.pattern) ∧
        peer.endpoints ≠ [] := by
  rw [Target, List.any_eq_true]
  refine and_congr_left fun _ => ?_
  constructor
  · rintro ⟨pattern, hpattern, hmatch⟩
    obtain ⟨s, hs, rfl⟩ := (represents_live calls).mem_allTopics.mp hpattern
    exact ⟨s, hs, (announced_iff topic s.pattern).mp hmatch⟩
  · rintro ⟨s, hs, hmatch⟩
    exact ⟨s.pattern, (represents_live calls).mem_allTopics.mpr ⟨s, hs, rfl⟩,
      (announced_iff topic s.pattern).mpr hmatch⟩

theorem routed_iff (calls : List TopicRouter.Call) (topic : Bytes) :
    0 < ((TopicRouter.run calls {}).route topic).length ↔
      ∃ s ∈ live 1 calls, delivers topic s.pattern = true := by
  rw [((represents_live calls).route topic).length_eq, List.length_map,
    List.length_filter_pos_iff]

/-- A peer is a target exactly if one of its subscriptions gets the message, if and only if: the
peer has an endpoint, in case a subscription matches; and no pattern is misleading, in case none
does and the peer has an endpoint. -/
theorem target_iff_routed_iff (calls : List TopicRouter.Call) (peer : PeerInfo) (topic : Bytes) :
    (Target topic (announcing calls peer) ↔
        0 < ((TopicRouter.run calls {}).route topic).length) ↔
      ((∃ s ∈ live 1 calls, delivers topic s.pattern = true) → peer.endpoints ≠ []) ∧
        ((∀ s ∈ live 1 calls, delivers topic s.pattern = false) → peer.endpoints ≠ [] →
          ∀ s ∈ live 1 calls, ¬ Misleading topic s.pattern) := by
  rw [target_announcing_iff, routed_iff]
  constructor
  · intro h
    constructor
    · exact fun hrouted => (h.mpr hrouted).2
    · intro hnone hendpoints s hs hmisleading
      obtain ⟨s', hs', hdelivers⟩ := h.mp ⟨⟨s, hs, Or.inr hmisleading⟩, hendpoints⟩
      rw [hnone s' hs'] at hdelivers
      cases hdelivers
  · rintro ⟨hreachable, hclear⟩
    constructor
    · rintro ⟨⟨s, hs, hmatch⟩, hendpoints⟩
      by_contra hnot
      have hnone : ∀ s ∈ live 1 calls, delivers topic s.pattern = false := by
        intro s' hs'
        by_contra hdelivers
        exact hnot ⟨s', hs', Bool.eq_true_of_not_eq_false hdelivers⟩
      obtain hdelivers | hmisleading := hmatch
      · exact hnot ⟨s, hs, hdelivers⟩
      · exact hclear hnone hendpoints s hs hmisleading
    · rintro ⟨s, hs, hdelivers⟩
      exact ⟨⟨s, hs, Or.inl hdelivers⟩, hreachable ⟨s, hs, hdelivers⟩⟩

/-- A message on `a` is sent to a peer that subscribes to `a/`, whose router drops it. -/
theorem not_target_iff_routed :
    ¬ ∀ calls peer topic, Target topic (announcing calls peer) ↔
      0 < ((TopicRouter.run calls {}).route topic).length := by
  intro hclaim
  let peer : PeerInfo :=
    { id := 2, name := [], hostName := [], publishedTopics := [], subscribedTopics := [],
      endpoints := [{ address := ascii ['1', '0', '.', '0', '.', '0', '.', '2'], port := 7400,
                      transportType := udp }] }
  have htarget : Target [0x61] (announcing [.add [0x61, slash] 0 {}] peer) := by decide
  have hrouted := (hclaim [.add [0x61, slash] 0 {}] peer [0x61]).mp htarget
  exact absurd hrouted (by decide)

end MessageBus

end EmbedMq
