import EmbedMq.Core.Types
import EmbedMq.Foundation.Table
import Mathlib.Logic.Function.Iterate

/-!
# Retained messages

`RetainedStore` of `retained_store.h`: at most one message for each topic, with
the time it was stored and its time to live. A `ttlMs` of zero never expires, and
a `maxCount` of zero does not limit the number of topics.
-/

namespace EmbedMq

structure RetainedEntry where
  msg : ReceivedMessage
  storedAt : Int := 0
  ttlMs : UInt32 := 0
  deriving DecidableEq

structure RetainedStore where
  retained : Table Bytes RetainedEntry := ∅
  defaultTtlMs : UInt32 := 0
  maxCount : UInt32 := 0

namespace RetainedStore

def configure (s : RetainedStore) (defaultTtlMs maxCount : UInt32) : RetainedStore :=
  { s with defaultTtlMs, maxCount }

/-- The topic stored first, the earlier one of the table on a tie. -/
def oldest : List (Bytes × RetainedEntry) → Option Bytes
  | [] => none
  | first :: rest =>
      some (rest.foldl (fun best entry =>
        if entry.2.storedAt < best.2.storedAt then entry else best) first).1

def dropOldest (t : Table Bytes RetainedEntry) : Table Bytes RetainedEntry :=
  match oldest t.toList with
  | some topic => t.erase topic
  | none => t

/-- Drop the oldest entries until the limit is met. -/
def enforceMaxCount (s : RetainedStore) : RetainedStore :=
  if s.maxCount = 0 then s
  else
    let excess := s.retained.entries.length - s.maxCount.toNat
    { s with retained := Nat.iterate dropOldest excess s.retained }

def store (s : RetainedStore) (topic : Bytes) (msg : ReceivedMessage) (now : Int)
    (lifespanMs : UInt32 := 0) : RetainedStore :=
  let ttlMs := if lifespanMs ≠ 0 then lifespanMs else s.defaultTtlMs
  enforceMaxCount { s with retained := s.retained.insert topic { msg, storedAt := now, ttlMs } }

def remove (s : RetainedStore) (topic : Bytes) : RetainedStore :=
  { s with retained := s.retained.erase topic }

def get (s : RetainedStore) (topic : Bytes) : Option ReceivedMessage :=
  (s.retained.lookup topic).map (·.msg)

def expired (now : Int) (e : RetainedEntry) : Bool :=
  decide (e.ttlMs ≠ 0 ∧ (e.ttlMs.toNat : Int) * 1000000 ≤ now - e.storedAt)

def expire (s : RetainedStore) (now : Int) : RetainedStore :=
  { s with retained := s.retained.sweep fun _ e => if expired now e then none else some e }

end RetainedStore

end EmbedMq
