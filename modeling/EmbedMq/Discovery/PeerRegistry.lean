import EmbedMq.Bus.Basic

/-!
# The peer registry

`PeerRegistry` of `peer_registry.h`. Each operation is its mutex-protected section:
it takes the registry to the registry afterwards and says which callbacks the
operation runs after it has released the mutex, in order. `checkTimeouts` has one
section of its own, which finds the dead peers, and then calls `remove` for each of
them.

The callbacks are the ones that `Participant::Impl::init` installs, up to the user's
own event callback.
-/

namespace EmbedMq

structure PeerRecord where
  info : PeerInfo
  lastSeen : Int
  deriving DecidableEq

/-- A callback of the registry into the upper layer. -/
inductive PeerCallback where
  | discovered (peer : PeerInfo)
  | updated (peer : PeerInfo)
  | will (peer : PeerInfo)
  | lost (peerId : UInt16) (name : Bytes)
  deriving DecidableEq

namespace PeerCallback

/-- The peer that a callback is about. -/
def peerId : PeerCallback → UInt16
  | discovered peer => peer.id
  | updated peer => peer.id
  | will peer => peer.id
  | lost peerId _ => peerId

/-- What the callback does to the bus. -/
def run (env : Env) : PeerCallback → MessageBus → MessageBus
  | discovered peer, bus => bus.onPeerDiscovered peer
  | updated peer, bus => bus.onPeerUpdated peer
  | will peer, bus =>
      (bus.deliverWill env peer.willTopic peer.willPayload peer.willRetain peer.id).1
  | lost peerId _, bus => bus.onPeerLost peerId

end PeerCallback

structure PeerRegistry where
  records : Table UInt16 PeerRecord := ∅

namespace PeerRegistry

/-- The upper layer has to refresh its routing table. -/
def changed (old peer : PeerInfo) : Bool :=
  decide (old.subscribedTopics ≠ peer.subscribedTopics) ||
    decide (old.publishedTopics ≠ peer.publishedTopics) ||
    decide (old.endpoints ≠ peer.endpoints)

def addOrUpdate (now : Int) (peer : PeerInfo) (reg : PeerRegistry) :
    PeerRegistry × List PeerCallback :=
  let after : PeerRegistry := { records := reg.records.insert peer.id ⟨peer, now⟩ }
  match reg.records.lookup peer.id with
  | none => (after, [.discovered peer])
  | some old => (after, if changed old.info peer then [.updated peer] else [])

def remove (peerId : UInt16) (triggerWill : Bool) (reg : PeerRegistry) :
    PeerRegistry × List PeerCallback :=
  match reg.records.lookup peerId with
  | none => (reg, [])
  | some rec =>
      ({ records := reg.records.erase peerId },
        (if triggerWill && rec.info.hasWill then [.will rec.info] else []) ++
          [.lost peerId rec.info.name])

/-- The peers that have been silent for longer than the timeout. -/
def dead (now : Int) (timeoutMs : UInt32) (reg : PeerRegistry) : List UInt16 :=
  reg.records.toList.filterMap fun entry =>
    if (timeoutMs.toNat : Int) < (now - entry.2.lastSeen).tdiv MessageBus.millisecond then
      some entry.1
    else none

def heartbeat (now : Int) (peerId : UInt16) (reg : PeerRegistry) : PeerRegistry :=
  match reg.records.lookup peerId with
  | none => reg
  | some rec => { records := reg.records.insert peerId { rec with lastSeen := now } }

/-! ### Concurrent calls -/

/-- A call into the registry, by the receive thread or by the timer thread. -/
inductive Call where
  | addOrUpdate (peer : PeerInfo)
  | remove (peerId : UInt16) (triggerWill : Bool)
  | checkTimeouts (timeoutMs : UInt32)
  | heartbeat (peerId : UInt16)
  deriving DecidableEq

/-- The mutex-protected section at the start of a call: the registry afterwards, the
callbacks to run, and the calls to make after those. -/
def enter (now : Int) : Call → PeerRegistry → PeerRegistry × List PeerCallback × List Call
  | .addOrUpdate peer, reg =>
      let (after, callbacks) := reg.addOrUpdate now peer
      (after, callbacks, [])
  | .remove peerId triggerWill, reg =>
      let (after, callbacks) := reg.remove peerId triggerWill
      (after, callbacks, [])
  | .checkTimeouts timeoutMs, reg =>
      (reg, [], (reg.dead now timeoutMs).map fun id => .remove id true)
  | .heartbeat peerId, reg => (reg.heartbeat now peerId, [], [])

end PeerRegistry

end EmbedMq
