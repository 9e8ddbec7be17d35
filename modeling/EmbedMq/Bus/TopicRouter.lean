import EmbedMq.Core.Types
import EmbedMq.Foundation.Table

/-!
# The local router

`TopicRouter` of `topic_router.h`. Subscriptions without wildcards are found by
their topic, the others by matching. A callback is named by a number; `route`
returns the callbacks that it invokes, in order.
-/

namespace EmbedMq

structure Subscription where
  id : UInt64
  pattern : Bytes
  isWildcard : Bool
  callback : Nat
  qos : QoSProfile
  deriving DecidableEq

structure TopicRouter where
  exactSubs : Table Bytes (List Subscription) := ∅
  wildcardSubs : List Subscription := []
  nextId : UInt64 := 1

namespace TopicRouter

def star : UInt8 := 0x2A
def hash : UInt8 := 0x23
def slash : UInt8 := 0x2F

/-- The loop of `split`: `token` is the segment read so far. A last segment that is
empty is not stored. -/
def splitLoop (delim : UInt8) (token : Bytes) : Bytes → List Bytes
  | [] => if token.isEmpty then [] else [token]
  | c :: rest =>
      if c = delim then token :: splitLoop delim [] rest
      else splitLoop delim (token ++ [c]) rest

def split (s : Bytes) (delim : UInt8) : List Bytes := splitLoop delim [] s

/-- The loop of `matchWildcard` on the segments that are left. -/
def matchParts : List Bytes → List Bytes → Bool
  | p :: ps, t :: ts =>
      if p = [hash] then ps.isEmpty
      else if p = [star] ∨ p = t then matchParts ps ts
      else false
  | [p], [] => decide (p = [hash])
  | ps, ts => ps.isEmpty && ts.isEmpty

def matchWildcard (pattern topic : Bytes) : Bool :=
  matchParts (split pattern slash) (split topic slash)

def addSubscription (r : TopicRouter) (pattern : Bytes) (callback : Nat) (qos : QoSProfile) :
    UInt64 × TopicRouter :=
  let id := r.nextId
  let isWild := pattern.contains star || pattern.contains hash
  let sub : Subscription := { id, pattern, isWildcard := isWild, callback, qos }
  let r := { r with nextId := id + 1 }
  if isWild then (id, { r with wildcardSubs := r.wildcardSubs ++ [sub] })
  else
    let subs := (r.exactSubs.lookup pattern).getD []
    (id, { r with exactSubs := r.exactSubs.insert pattern (subs ++ [sub]) })

def removeSubscription (r : TopicRouter) (id : UInt64) : TopicRouter :=
  { r with exactSubs := r.exactSubs.sweep fun _ subs => some (subs.filter fun s => s.id ≠ id)
           wildcardSubs := r.wildcardSubs.filter fun s => s.id ≠ id }

/-- The callbacks for a topic, exact ones first. -/
def route (r : TopicRouter) (topic : Bytes) : List Nat :=
  ((r.exactSubs.lookup topic).getD []).map (·.callback) ++
    (r.wildcardSubs.filter fun s => matchWildcard s.pattern topic).map (·.callback)

def hasSubscribers (r : TopicRouter) (topic : Bytes) : Bool :=
  !((r.exactSubs.lookup topic).getD []).isEmpty ||
    r.wildcardSubs.any fun s => matchWildcard s.pattern topic

def allTopics (r : TopicRouter) : List Bytes :=
  (r.exactSubs.toList.filterMap fun entry => if entry.2.isEmpty then none else some entry.1) ++
    r.wildcardSubs.map (·.pattern)

/-- The pattern `#` alone matches every topic. -/
theorem matchWildcard_hash (topic : Bytes) : matchWildcard [hash] topic = true := by
  have hparts : split [hash] slash = [[hash]] := rfl
  rw [matchWildcard, hparts]
  cases split topic slash with
  | nil => rfl
  | cons t ts => rfl

end TopicRouter

end EmbedMq
