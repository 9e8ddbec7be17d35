import EmbedMq.Bus.Basic
import EmbedMq.Foundation.Transition
import EmbedMq.Transport.Link

/-!
# Nodes that exchange messages

Any number of nodes with their transports, and everything that is in flight between
them. `TransportManager` chooses the transport of a message by the type of its
destination. A node sends its datagrams from one socket; it keeps its connections in a
table under the address of the peer, and both ends of a connection read it; a
shared-memory inbox is open to all processes of the machine.

A transport hands a message to its callback together with the endpoint it came from.
The node that has really sent it is recorded beside it, and nothing in the code looks
at that. The transports stay active; nodes do not go away.
-/

namespace EmbedMq

/-- A node as its transports see it. -/
structure Station where
  ip : Bytes
  /-- Processes of one machine share its memory. -/
  machine : Nat
  enableUdp : Bool
  enableTcp : Bool
  enableShm : Bool
  udpPort : UInt16
  tcpPort : UInt16
  shmName : Bytes
  recvBufferSize : Nat := 2048
  slotSize : Nat := ShmTransport.defaultSlotSize
  slotCount : Nat := ShmTransport.defaultSlotCount
  /-- `ShmTransport::init` raises a smaller size. -/
  roomy : 64 ≤ slotSize := by decide

/-- The nodes of a network; no two of them have the same UDP address. -/
structure Stations where
  all : List Station
  distinct : ∀ (i j : Nat) (first second : Station), all[i]? = some first →
    all[j]? = some second → first.enableUdp = true → second.enableUdp = true →
    first.ip = second.ip → first.udpPort = second.udpPort → i = j

/-- One end of a connection. -/
structure Socket where
  owner : Nat
  /-- `peerEp`: where messages that are read here come from. -/
  peer : Endpoint
  /-- The other end, and the node it belongs to. -/
  other : Nat
  remote : Nat
  /-- Its `clientLoop` runs. -/
  running : Bool
  /-- It is not closed. -/
  opened : Bool := true

structure Datagram where
  sender : Nat
  source : Endpoint
  address : Bytes
  port : UInt16
  data : Bytes

/-- A message that was handed to the callback of a node. -/
structure Delivery where
  node : Nat
  source : Endpoint
  data : Bytes
  sender : Nat

/-- What is in flight, and what has arrived. -/
structure Traffic where
  datagrams : List Datagram := []
  sockets : List Socket := []
  /-- The bytes that a socket has not read yet. -/
  incoming : Nat → Bytes := fun _ => []
  /-- `connections_` of each node. -/
  connections : Nat → Table (Bytes × UInt16) Nat := fun _ => ∅
  /-- The messages in the inbox of each node, with the nodes that have written them. -/
  inboxes : Nat → List (Nat × Bytes) := fun _ => []
  delivered : List Delivery := []

/-- The key of an endpoint in `connections_`. -/
def Endpoint.key (ep : Endpoint) : Bytes × UInt16 := (ep.address, ep.port)

namespace Stations

/-- The node that gets the datagrams to an address. -/
def receiver (stations : Stations) (address : Bytes) (port : UInt16) : Option Nat :=
  stations.all.findIdx? fun station =>
    station.enableUdp && decide (station.ip = address ∧ station.udpPort = port)

/-- The node that listens for connections at an address. -/
def listener (stations : Stations) (address : Bytes) (port : UInt16) : Option Nat :=
  stations.all.findIdx? fun station =>
    station.enableTcp && decide (station.ip = address ∧ station.tcpPort = port)

/-- The node on the machine whose inbox has a name. -/
def segment (stations : Stations) (machine : Nat) (name : Bytes) : Option Nat :=
  stations.all.findIdx? fun station =>
    station.enableShm && decide (station.machine = machine ∧ station.shmName = name)

end Stations

/-- The transport that `TransportManager::send` and `sendv` choose. -/
def Station.plane (station : Station) (transportType : Bytes) : Option TransportKind :=
  if transportType = MessageBus.shm ∧ station.enableShm then some .shm
  else if transportType = MessageBus.tcp ∧ station.enableTcp then some .tcp
  else if station.enableUdp then some .udp
  else none

namespace Traffic

inductive Label where
  /-- A node hands a message to `TransportManager`. A new connection gets `port`. -/
  | send (node : Nat) (dest : Endpoint) (out : Outgoing) (port : UInt16)
  /-- A datagram arrives. -/
  | datagram (k : Nat)
  /-- `acceptLoop` takes a connection. -/
  | accept (i : Nat)
  /-- One round of the `clientLoop` of a socket. -/
  | round (i : Nat)
  /-- `recvLoop` takes a message out of the inbox of a node. -/
  | consume (node : Nat)

/-- It is no send. -/
def Label.isArrival : Label → Bool
  | send _ _ _ _ => false
  | _ => true

variable (stations : Stations)

/-- `UdpTransport::send`. -/
def sendUdp (node : Nat) (station : Station) (dest : Endpoint) (out : Outgoing) (net : Traffic) :
    Traffic :=
  match (UdpTransport.transmit out).2 with
  | some data =>
      { net with datagrams := net.datagrams ++
          [{ sender := node, address := dest.address, port := dest.port, data
             source := { address := station.ip, port := station.udpPort
                         transportType := MessageBus.udp } }] }
  | none => net

/-- Write to one end of a connection; what is written after the other end was closed is lost. -/
def writeTo (i : Nat) (bytes : Bytes) (net : Traffic) : Traffic :=
  match net.sockets[i]? with
  | some socket =>
      match net.sockets[socket.other]? with
      | some far =>
          if far.opened then
            { net with
              incoming := Function.update net.incoming socket.other
                (net.incoming socket.other ++ bytes) }
          else net
      | none => net
  | none => net

/-- A new connection. Its server end waits for `acceptLoop`. -/
def connect (node server : Nat) (station : Station) (dest : Endpoint) (port : UInt16)
    (net : Traffic) : Traffic :=
  let n := net.sockets.length
  let source : Endpoint := { address := station.ip, port, transportType := MessageBus.tcp }
  { net with
    sockets := net.sockets ++
      [{ owner := node, peer := dest, other := n + 1, remote := server, running := true },
       { owner := server, peer := source, other := n, remote := node, running := false }]
    connections := Function.update net.connections node
      ((net.connections node).insert dest.key n) }

/-- `TcpTransport::send` with `getOrConnect`. -/
def sendTcp (node : Nat) (station : Station) (dest : Endpoint) (out : Outgoing) (port : UInt16)
    (net : Traffic) : Traffic :=
  match (net.connections node).lookup dest.key with
  | some i => net.writeTo i (TcpTransport.transmit out)
  | none =>
      match stations.listener dest.address dest.port with
      | some server =>
          (net.connect node server station dest port).writeTo net.sockets.length
            (TcpTransport.transmit out)
      | none => net

/-- `ShmTransport::send`. -/
def sendShm (node : Nat) (station : Station) (dest : Endpoint) (out : Outgoing) (net : Traffic) :
    Traffic :=
  if dest.address.isEmpty then net
  else
    match stations.segment station.machine dest.address with
    | none => net
    | some target =>
        match stations.all[target]? with
        | none => net
        | some owner =>
            let inbox := net.inboxes target
            if (ShmTransport.write owner.slotSize owner.slotCount out.bytes
                (inbox.map Prod.snd)).1 then
              { net with inboxes :=
                  Function.update net.inboxes target (inbox ++ [(node, out.bytes)]) }
            else net

/-- `TransportManager::send` and `sendv`. -/
def send (node : Nat) (dest : Endpoint) (out : Outgoing) (port : UInt16) (net : Traffic) :
    Traffic :=
  match stations.all[node]? with
  | none => net
  | some station =>
      match station.plane dest.transportType with
      | some .shm => net.sendShm stations node station dest out
      | some .tcp => net.sendTcp stations node station dest out port
      | some .udp => net.sendUdp node station dest out
      | none => net

/-- `UdpTransport::processFd`. -/
def receiveDatagram (k : Nat) (net : Traffic) : Traffic :=
  match net.datagrams[k]? with
  | none => net
  | some datagram =>
      let net := { net with datagrams := net.datagrams.eraseIdx k }
      match stations.receiver datagram.address datagram.port with
      | none => net
      | some node =>
          match stations.all[node]? with
          | none => net
          | some station =>
              match UdpTransport.received station.recvBufferSize datagram.data with
              | none => net
              | some data =>
                  { net with delivered := net.delivered ++
                      [{ node, source := datagram.source, data, sender := datagram.sender }] }

/-- `TcpTransport::acceptLoop`. -/
def accept (i : Nat) (net : Traffic) : Traffic :=
  match net.sockets[i]? with
  | none => net
  | some socket =>
      if socket.running || !socket.opened then net
      else
        { net with
          sockets := net.sockets.set i { socket with running := true }
          connections := Function.update net.connections socket.owner
            ((net.connections socket.owner).insert socket.peer.key i) }

/-- `clientLoop` has ended; `closeOwnedConnection`. -/
def leave (i : Nat) (socket : Socket) (net : Traffic) : Traffic :=
  if (net.connections socket.owner).lookup socket.peer.key = some i then
    { net with
      sockets := net.sockets.set i { socket with running := false, opened := false }
      connections := Function.update net.connections socket.owner
        ((net.connections socket.owner).erase socket.peer.key) }
  else { net with sockets := net.sockets.set i { socket with running := false } }

/-- One round of `TcpTransport::clientLoop`. -/
def round (i : Nat) (net : Traffic) : Traffic :=
  match net.sockets[i]? with
  | none => net
  | some socket =>
      if socket.running then
        match TcpTransport.readMessage (net.incoming i) with
        | .message data rest =>
            { net with
              incoming := Function.update net.incoming i rest
              delivered := net.delivered ++
                [{ node := socket.owner, source := socket.peer, data, sender := socket.remote }] }
        | .broken => net.leave i socket
        | .waiting =>
            -- The read ends when the other end is closed.
            match net.sockets[socket.other]? with
            | some far => if far.opened then net else net.leave i socket
            | none => net
      else net

/-- `ShmTransport::recvLoop`: the inbox does not say where a message comes from. -/
def consume (node : Nat) (net : Traffic) : Traffic :=
  match stations.all[node]?, net.inboxes node with
  | some station, (sender, written) :: rest =>
      let net := { net with inboxes := Function.update net.inboxes node rest }
      match ShmTransport.received station.slotSize written with
      | none => net
      | some data =>
          { net with delivered := net.delivered ++
              [{ node, data, sender
                 source := { address := [], transportType := MessageBus.shm } }] }
  | _, _ => net

def next (net : Traffic) : Label → Traffic
  | .send node dest out port => net.send stations node dest out port
  | .datagram k => net.receiveDatagram stations k
  | .accept i => net.accept i
  | .round i => net.round i
  | .consume node => net.consume stations node

/-- The operating system gives a new connection to `server` a port under which the node has no
other connection to it, and at which nobody listens. -/
def FreePort (net : Traffic) (ip : Bytes) (server : Nat) (port : UInt16) : Prop :=
  (∀ socket ∈ net.sockets, socket.owner = server → socket.peer.address = ip →
      socket.peer.port ≠ port) ∧
    ∀ station ∈ stations.all, station.enableTcp = true → station.ip = ip → station.tcpPort ≠ port

def enabled (net : Traffic) : Label → Prop
  | .send node dest _ port => ∀ station server, stations.all[node]? = some station →
      (net.connections node).lookup dest.key = none →
      stations.listener dest.address dest.port = some server →
      net.FreePort stations station.ip server port
  | _ => True

/-- The nodes of a network in any run. -/
def system : TransitionSystem Traffic Label where
  init net := net = {}
  enabled := enabled stations
  next := next stations

end Traffic

end EmbedMq
