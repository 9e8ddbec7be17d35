import EmbedMq.Transport.Stations
import EmbedMq.Transport.TcpStream

/-!
# Where received messages come from

In every run in which the connections carry only messages that the receiving loop
accepts, no connection is closed, every running end of one is found in the table of its
node under the address that its messages are said to come from, and the other end
belongs to the node that has sent them. The source of a datagram is the only socket of
its sender. A message from a shared-memory inbox has no source.
-/

namespace EmbedMq

namespace Stations

variable {stations : Stations} {address : Bytes} {port : UInt16} {node : Nat}

theorem listener_spec (h : stations.listener address port = some node) :
    ∃ station, stations.all[node]? = some station ∧ station.enableTcp = true ∧
      station.ip = address ∧ station.tcpPort = port := by
  obtain ⟨hlt, hfound, _⟩ := List.findIdx?_eq_some_iff_getElem.mp h
  simp only [Bool.and_eq_true, decide_eq_true_eq] at hfound
  exact ⟨_, List.getElem?_eq_getElem hlt, hfound.1, hfound.2.1, hfound.2.2⟩

theorem receiver_spec (h : stations.receiver address port = some node) :
    ∃ station, stations.all[node]? = some station ∧ station.enableUdp = true ∧
      station.ip = address ∧ station.udpPort = port := by
  obtain ⟨hlt, hfound, _⟩ := List.findIdx?_eq_some_iff_getElem.mp h
  simp only [Bool.and_eq_true, decide_eq_true_eq] at hfound
  exact ⟨_, List.getElem?_eq_getElem hlt, hfound.1, hfound.2.1, hfound.2.2⟩

theorem segment_spec {machine : Nat} {name : Bytes}
    (h : stations.segment machine name = some node) :
    ∃ station, stations.all[node]? = some station ∧ station.enableShm = true := by
  obtain ⟨hlt, hfound, _⟩ := List.findIdx?_eq_some_iff_getElem.mp h
  simp only [Bool.and_eq_true, decide_eq_true_eq] at hfound
  exact ⟨_, List.getElem?_eq_getElem hlt, hfound.1⟩

/-- The address of a node's socket leads to the node. -/
theorem receiver_eq {station : Station} (h : stations.all[node]? = some station)
    (hudp : station.enableUdp = true) :
    stations.receiver station.ip station.udpPort = some node := by
  cases hfound : stations.receiver station.ip station.udpPort with
  | none =>
      have hno := List.findIdx?_eq_none_iff.mp hfound station (List.mem_of_getElem? h)
      simp [hudp] at hno
  | some other =>
      obtain ⟨found, hget, hfoundUdp, hip, hport⟩ := receiver_spec hfound
      exact congrArg some
        (stations.distinct other node found station hget h hfoundUdp hudp hip hport)

end Stations

/-! ### Connections -/

namespace Traffic

open TcpTransport (Framed Acceptable unread)

/-- The ends of the connections, and the tables they are kept in. -/
structure Wired (stations : Stations) (sockets : List Socket)
    (connections : Nat → Table (Bytes × UInt16) Nat) : Prop where
  opened : ∀ (i : Nat) s, sockets[i]? = some s → s.opened = true
  paired : ∀ (i : Nat) s, sockets[i]? = some s →
    ∃ far, sockets[s.other]? = some far ∧ far.owner = s.remote ∧ far.remote = s.owner
  tcp : ∀ (i : Nat) s, sockets[i]? = some s → s.peer.transportType = MessageBus.tcp ∧
    ∃ station, stations.all[s.owner]? = some station ∧ station.enableTcp = true
  /-- Nobody listens at the far end of a connection that is not accepted yet. -/
  waiting : ∀ (i : Nat) s, sockets[i]? = some s → s.running = false →
    ∀ station ∈ stations.all, station.enableTcp = true → station.ip = s.peer.address →
      station.tcpPort ≠ s.peer.port
  distinct : ∀ (i j : Nat) s t, sockets[i]? = some s → sockets[j]? = some t →
    s.owner = t.owner → s.peer.key = t.peer.key → i = j
  named : ∀ (i : Nat) s, sockets[i]? = some s → s.running = true →
    (connections s.owner).lookup s.peer.key = some i
  entry : ∀ node key i, (connections node).lookup key = some i →
    ∃ s, sockets[i]? = some s ∧ s.owner = node ∧ s.peer.key = key ∧ s.running = true

variable {stations : Stations} {sockets : List Socket}
  {connections : Nat → Table (Bytes × UInt16) Nat}

theorem lookup_update (node n : Nat) (k key : Bytes × UInt16) (i : Nat) :
    (Function.update connections node ((connections node).insert k i) n).lookup key =
      if n = node ∧ key = k then some i else (connections n).lookup key := by
  by_cases hnode : n = node
  · subst hnode
    rw [Function.update_self, Table.lookup_insert_eq]
    simp only [true_and]
  · rw [Function.update_of_ne hnode, if_neg fun h => hnode h.1]

section Accept

variable {i : Nat} {socket : Socket}

theorem getElem?_accepted (hsocket : sockets[i]? = some socket) {j : Nat} {t : Socket}
    (h : (sockets.set i { socket with running := true })[j]? = some t) :
    (j = i ∧ t = { socket with running := true }) ∨ (j ≠ i ∧ sockets[j]? = some t) := by
  rw [List.getElem?_set] at h
  split at h
  · rename_i heq
    subst heq
    rw [if_pos (List.getElem?_eq_some_iff.mp hsocket).1] at h
    exact Or.inl ⟨rfl, (Option.some.inj h).symm⟩
  · rename_i hne
    exact Or.inr ⟨Ne.symm hne, h⟩

/-- An end has the same address after another one was accepted. -/
theorem before_accepted (hsocket : sockets[i]? = some socket) {j : Nat} {t : Socket}
    (h : (sockets.set i { socket with running := true })[j]? = some t) :
    ∃ old, sockets[j]? = some old ∧ t = { old with running := t.running } := by
  obtain ⟨rfl, rfl⟩ | ⟨_, hold⟩ := getElem?_accepted hsocket h
  · exact ⟨socket, hsocket, rfl⟩
  · exact ⟨t, hold, rfl⟩

theorem after_accepted (hsocket : sockets[i]? = some socket) {j : Nat} {old : Socket}
    (h : sockets[j]? = some old) :
    ∃ t, (sockets.set i { socket with running := true })[j]? = some t ∧
      t = { old with running := t.running } ∧ (old.running = true → t = old) := by
  by_cases heq : j = i
  · subst heq
    obtain rfl := Option.some.inj (hsocket.symm.trans h)
    refine ⟨{ socket with running := true }, ?_, rfl, fun hrunning => ?_⟩
    · rw [List.getElem?_set, if_pos rfl, if_pos (List.getElem?_eq_some_iff.mp hsocket).1]
    · rw [← hrunning]
  · refine ⟨old, ?_, rfl, fun _ => rfl⟩
    rw [List.getElem?_set, if_neg (Ne.symm heq)]
    exact h

theorem Wired.accept (h : Wired stations sockets connections)
    (hsocket : sockets[i]? = some socket) :
    Wired stations (sockets.set i { socket with running := true })
      (Function.update connections socket.owner
        ((connections socket.owner).insert socket.peer.key i)) where
  opened j t ht := by
    obtain ⟨old, hold, hsame⟩ := before_accepted hsocket ht
    rw [hsame]
    exact h.opened j old hold
  paired j t ht := by
    obtain ⟨old, hold, hsame⟩ := before_accepted hsocket ht
    obtain ⟨far, hfar, howner, hremote⟩ := h.paired j old hold
    obtain ⟨far', hfar', hsame', _⟩ := after_accepted hsocket hfar
    rw [hsame]
    refine ⟨far', hfar', ?_⟩
    rw [hsame']
    exact ⟨howner, hremote⟩
  tcp j t ht := by
    obtain ⟨old, hold, hsame⟩ := before_accepted hsocket ht
    rw [hsame]
    exact h.tcp j old hold
  waiting j t ht hrunning := by
    obtain ⟨rfl, rfl⟩ | ⟨_, hold⟩ := getElem?_accepted hsocket ht
    · cases hrunning
    · exact h.waiting j t hold hrunning
  distinct j k s t hs ht := by
    obtain ⟨old, hold, hsame⟩ := before_accepted hsocket hs
    obtain ⟨old', hold', hsame'⟩ := before_accepted hsocket ht
    rw [hsame, hsame']
    exact h.distinct j k old old' hold hold'
  named j t ht hrunning := by
    rw [lookup_update]
    obtain ⟨rfl, rfl⟩ | ⟨hne, hold⟩ := getElem?_accepted hsocket ht
    · rw [if_pos ⟨rfl, rfl⟩]
    · rw [if_neg fun heq => hne (h.distinct j i t socket hold hsocket heq.1 heq.2)]
      exact h.named j t hold hrunning
  entry node key j hlookup := by
    rw [lookup_update] at hlookup
    split at hlookup
    · rename_i heq
      obtain ⟨rfl, rfl⟩ := heq
      obtain rfl := Option.some.inj hlookup
      refine ⟨{ socket with running := true }, ?_, rfl, rfl, rfl⟩
      rw [List.getElem?_set, if_pos rfl, if_pos (List.getElem?_eq_some_iff.mp hsocket).1]
    · obtain ⟨s, hs, howner, hkey, hrunning⟩ := h.entry node key j hlookup
      obtain ⟨t, ht, _, hsame⟩ := after_accepted hsocket hs
      rw [hsame hrunning] at ht
      exact ⟨s, ht, howner, hkey, hrunning⟩

end Accept

section Connect

theorem getElem?_connected {client server : Socket} {j : Nat} {t : Socket}
    (h : (sockets ++ [client, server])[j]? = some t) :
    sockets[j]? = some t ∨ (j = sockets.length ∧ t = client) ∨
      (j = sockets.length + 1 ∧ t = server) := by
  rw [List.getElem?_append] at h
  split at h
  · exact Or.inl h
  · obtain hfirst | hsecond | hbeyond : j - sockets.length = 0 ∨ j - sockets.length = 1 ∨
        2 ≤ j - sockets.length := by omega
    · rw [hfirst] at h
      exact Or.inr (Or.inl ⟨by omega, (Option.some.inj h).symm⟩)
    · rw [hsecond] at h
      exact Or.inr (Or.inr ⟨by omega, (Option.some.inj h).symm⟩)
    · rw [List.getElem?_eq_none hbeyond] at h
      cases h

theorem getElem?_before {j : Nat} {t : Socket} (h : sockets[j]? = some t) (more : List Socket) :
    (sockets ++ more)[j]? = some t := by
  rw [List.getElem?_append_left (List.getElem?_eq_some_iff.mp h).1]
  exact h

theorem getElem?_client (client server : Socket) :
    (sockets ++ [client, server])[sockets.length]? = some client := by
  rw [List.getElem?_append_right (Nat.le_refl _), Nat.sub_self]
  rfl

theorem getElem?_server (client server : Socket) :
    (sockets ++ [client, server])[sockets.length + 1]? = some server := by
  rw [List.getElem?_append_right (Nat.le_add_right _ 1), Nat.add_sub_cancel_left]
  rfl

variable {net : Traffic} {node server : Nat} {station : Station} {dest : Endpoint} {port : UInt16}

/-- A node has no connection to a listener that is not in its table. -/
theorem Wired.peer_ne_of_lookup (h : Wired stations net.sockets net.connections)
    (hnew : (net.connections node).lookup dest.key = none)
    (hlistener : stations.listener dest.address dest.port = some server) {i : Nat} {s : Socket}
    (hs : net.sockets[i]? = some s) (howner : s.owner = node) : s.peer.key ≠ dest.key := by
  intro hkey
  cases hrunning : s.running with
  | true =>
      have hentry := h.named i s hs hrunning
      rw [howner, hkey, hnew] at hentry
      cases hentry
  | false =>
      -- The end waits to be accepted, but somebody listens at the address of its peer.
      obtain ⟨listening, hserver, htcp, hip, hport⟩ := Stations.listener_spec hlistener
      obtain ⟨haddress, hsame⟩ := Prod.mk.inj hkey
      exact h.waiting i s hs hrunning listening (List.mem_of_getElem? hserver) htcp
        (hip.trans haddress.symm) (hport.trans hsame.symm)

theorem FreePort.peer_ne {ip : Bytes} (hfree : net.FreePort stations ip server port) {i : Nat}
    {s : Socket} (hs : net.sockets[i]? = some s) (howner : s.owner = server) :
    s.peer.key ≠ (ip, port) := by
  intro hkey
  obtain ⟨haddress, hsame⟩ := Prod.mk.inj hkey
  exact hfree.1 s (List.mem_of_getElem? hs) howner haddress hsame

theorem FreePort.listener_ne {ip : Bytes} (hfree : net.FreePort stations ip server port)
    (hlistener : stations.listener dest.address dest.port = some server) :
    dest.key ≠ (ip, port) := by
  intro hkey
  obtain ⟨listening, hserver, htcp, hip, hport⟩ := Stations.listener_spec hlistener
  obtain ⟨haddress, hsame⟩ := Prod.mk.inj hkey
  exact hfree.2 listening (List.mem_of_getElem? hserver) htcp (hip.trans haddress)
    (hport.trans hsame)

theorem Wired.connect (h : Wired stations net.sockets net.connections)
    (hstation : stations.all[node]? = some station) (htcp : station.enableTcp = true)
    (hdest : dest.transportType = MessageBus.tcp)
    (hnew : (net.connections node).lookup dest.key = none)
    (hlistener : stations.listener dest.address dest.port = some server)
    (hfree : net.FreePort stations station.ip server port) :
    Wired stations (net.connect node server station dest port).sockets
      (net.connect node server station dest port).connections := by
  obtain ⟨listening, hserver, hserverTcp, _, _⟩ := Stations.listener_spec hlistener
  have hends := hfree.listener_ne hlistener
  constructor
  case opened =>
    intro i s hs
    obtain hold | ⟨_, rfl⟩ | ⟨_, rfl⟩ := getElem?_connected hs
    · exact h.opened i s hold
    · rfl
    · rfl
  case paired =>
    intro i s hs
    obtain hold | ⟨rfl, rfl⟩ | ⟨rfl, rfl⟩ := getElem?_connected hs
    · obtain ⟨far, hfar, hfarEnds⟩ := h.paired i s hold
      exact ⟨far, getElem?_before hfar _, hfarEnds⟩
    · exact ⟨_, getElem?_server _ _, rfl, rfl⟩
    · exact ⟨_, getElem?_client _ _, rfl, rfl⟩
  case tcp =>
    intro i s hs
    obtain hold | ⟨_, rfl⟩ | ⟨_, rfl⟩ := getElem?_connected hs
    · exact h.tcp i s hold
    · exact ⟨hdest, station, hstation, htcp⟩
    · exact ⟨rfl, listening, hserver, hserverTcp⟩
  case waiting =>
    intro i s hs hrunning
    obtain hold | ⟨_, rfl⟩ | ⟨_, rfl⟩ := getElem?_connected hs
    · exact h.waiting i s hold hrunning
    · cases hrunning
    · exact hfree.2
  case distinct =>
    intro i j s t hs ht howner hkey
    obtain hs | ⟨rfl, rfl⟩ | ⟨rfl, rfl⟩ := getElem?_connected hs <;>
      obtain ht | ⟨rfl, rfl⟩ | ⟨rfl, rfl⟩ := getElem?_connected ht
    · exact h.distinct i j s t hs ht howner hkey
    · exact absurd hkey (h.peer_ne_of_lookup hnew hlistener hs howner)
    · exact absurd hkey (hfree.peer_ne hs howner)
    · exact absurd hkey.symm (h.peer_ne_of_lookup hnew hlistener ht howner.symm)
    · rfl
    · exact absurd hkey hends
    · exact absurd hkey.symm (hfree.peer_ne ht howner.symm)
    · exact absurd hkey.symm hends
    · rfl
  case named =>
    intro i s hs hrunning
    change (Function.update net.connections node _ s.owner).lookup s.peer.key = some i
    rw [lookup_update]
    obtain hold | ⟨rfl, rfl⟩ | ⟨rfl, rfl⟩ := getElem?_connected hs
    · rw [if_neg fun heq => h.peer_ne_of_lookup hnew hlistener hold heq.1 heq.2]
      exact h.named i s hold hrunning
    · rw [if_pos ⟨rfl, rfl⟩]
    · cases hrunning
  case entry =>
    intro n key i hlookup
    change (Function.update net.connections node _ n).lookup key = some i at hlookup
    rw [lookup_update] at hlookup
    split at hlookup
    · rename_i heq
      obtain ⟨rfl, rfl⟩ := heq
      obtain rfl := Option.some.inj hlookup
      exact ⟨_, getElem?_client _ _, rfl, rfl, rfl⟩
    · obtain ⟨s, hs, hrest⟩ := h.entry n key i hlookup
      exact ⟨s, getElem?_before hs _, hrest⟩

end Connect

/-! ### Where messages come from -/

/-- The node is there, and uses a transport. -/
def Uses (stations : Stations) (node : Nat) (enabled : Station → Bool) : Prop :=
  ∃ station, stations.all[node]? = some station ∧ enabled station = true

/-- The source of a datagram is the socket of its sender. -/
def FromSocket (stations : Stations) (sender : Nat) (source : Endpoint) : Prop :=
  ∃ station, stations.all[sender]? = some station ∧ station.enableUdp = true ∧
    source = { address := station.ip, port := station.udpPort, transportType := MessageBus.udp }

/-- How a message has come to a node, and what its source says. -/
inductive Traced (stations : Stations) (sockets : List Socket) (x : Delivery) : Prop
  | udp (receiver : Uses stations x.node Station.enableUdp)
      (source : FromSocket stations x.sender x.source)
  | tcp (i : Nat) (socket : Socket) (found : sockets[i]? = some socket)
      (owner : socket.owner = x.node) (remote : socket.remote = x.sender)
      (peer : socket.peer = x.source) (running : socket.running = true)
  | shm (receiver : Uses stations x.node Station.enableShm)
      (sender : ∃ station, stations.all[x.sender]? = some station)
      (source : x.source = { address := [], transportType := MessageBus.shm })

/-- What holds in every run in which the connections carry only messages that are accepted. -/
structure Sound (stations : Stations) (net : Traffic) : Prop where
  framed : ∀ i, Framed (net.incoming i)
  beyond : ∀ i, net.sockets.length ≤ i → net.incoming i = []
  wired : Wired stations net.sockets net.connections
  datagrams : ∀ g ∈ net.datagrams, FromSocket stations g.sender g.source
  inboxes : ∀ node, ∀ e ∈ net.inboxes node, Uses stations node Station.enableShm ∧
    ∃ station, stations.all[e.1]? = some station
  delivered : ∀ x ∈ net.delivered, Traced stations net.sockets x

variable {net : Traffic} {node : Nat} {station : Station} {dest : Endpoint} {out : Outgoing}
  {port : UInt16}

/-- A message is traced as long as the ends that are read stay. -/
theorem Traced.mono {sockets' : List Socket} {x : Delivery} (h : Traced stations sockets x)
    (hkept : ∀ (i : Nat) s, sockets[i]? = some s → s.running = true → sockets'[i]? = some s) :
    Traced stations sockets' x := by
  cases h with
  | udp receiver source => exact .udp receiver source
  | tcp i socket found owner remote peer running =>
      exact .tcp i socket (hkept i socket found running) owner remote peer running
  | shm receiver sender source => exact .shm receiver sender source

/-- One more message was handed to a callback. -/
theorem forall_delivered {x : Delivery} (h : Sound stations net)
    (hx : Traced stations net.sockets x) :
    ∀ y ∈ net.delivered ++ [x], Traced stations net.sockets y := by
  intro y hy
  obtain hy | hy := List.mem_append.mp hy
  · exact h.delivered y hy
  · rw [List.mem_singleton.mp hy]
    exact hx

theorem Sound.sendUdp (h : Sound stations net) (hstation : stations.all[node]? = some station)
    (hudp : station.enableUdp = true) : Sound stations (net.sendUdp node station dest out) := by
  rw [Traffic.sendUdp]
  split
  · refine ⟨h.framed, h.beyond, h.wired, fun g hg => ?_, h.inboxes, h.delivered⟩
    obtain hg | hg := List.mem_append.mp hg
    · exact h.datagrams g hg
    · rw [List.mem_singleton.mp hg]
      exact ⟨station, hstation, hudp, rfl⟩
  · exact h

theorem Sound.sendShm (h : Sound stations net) (hstation : stations.all[node]? = some station) :
    Sound stations (net.sendShm stations node station dest out) := by
  rw [Traffic.sendShm]
  split
  · exact h
  · split
    · exact h
    · rename_i target hsegment
      split
      · exact h
      · dsimp only
        split
        · refine ⟨h.framed, h.beyond, h.wired, h.datagrams, fun n e he => ?_, h.delivered⟩
          have howner : Uses stations target Station.enableShm := Stations.segment_spec hsegment
          by_cases heq : n = target
          · subst heq
            simp only [Function.update_self] at he
            obtain he | he := List.mem_append.mp he
            · exact h.inboxes n e he
            · rw [List.mem_singleton.mp he]
              exact ⟨howner, station, hstation⟩
          · simp only [Function.update_of_ne heq] at he
            exact h.inboxes n e he
        · exact h

theorem writeTo_eq (h : Wired stations net.sockets net.connections) {i : Nat} {socket : Socket}
    (hsocket : net.sockets[i]? = some socket) (bytes : Bytes) :
    net.writeTo i bytes = { net with
      incoming := Function.update net.incoming socket.other
        (net.incoming socket.other ++ bytes) } := by
  obtain ⟨far, hfar, _⟩ := h.paired i socket hsocket
  simp only [writeTo, hsocket, hfar, h.opened _ far hfar, if_true]

theorem Sound.writeTo (h : Sound stations net) {i : Nat} {socket : Socket}
    (hsocket : net.sockets[i]? = some socket) (hout : Acceptable out.bytes.length) :
    Sound stations (net.writeTo i (TcpTransport.transmit out)) := by
  rw [writeTo_eq h.wired hsocket, TcpTransport.transmit_eq]
  refine ⟨fun j => ?_, fun j hj => ?_, h.wired, h.datagrams, h.inboxes, h.delivered⟩
  · by_cases heq : j = socket.other
    · subst heq
      simp only [Function.update_self]
      exact (TcpTransport.framed_append (h.framed _) hout).1
    · simp only [Function.update_of_ne heq]
      exact h.framed j
  · obtain ⟨far, hfar, _⟩ := h.wired.paired i socket hsocket
    have hother := (List.getElem?_eq_some_iff.mp hfar).1
    have hne : j ≠ socket.other := Nat.ne_of_gt (Nat.lt_of_lt_of_le hother hj)
    simp only [Function.update_of_ne hne]
    exact h.beyond j hj

theorem Sound.sendTcp (h : Sound stations net) (hstation : stations.all[node]? = some station)
    (htcp : station.enableTcp = true) (hdest : dest.transportType = MessageBus.tcp)
    (hout : Acceptable out.bytes.length)
    (hfree : ∀ server, (net.connections node).lookup dest.key = none →
      stations.listener dest.address dest.port = some server →
      net.FreePort stations station.ip server port) :
    Sound stations (net.sendTcp stations node station dest out port) := by
  rw [Traffic.sendTcp]
  cases hlookup : (net.connections node).lookup dest.key with
  | some i =>
      obtain ⟨socket, hsocket, _⟩ := h.wired.entry node dest.key i hlookup
      exact h.writeTo hsocket hout
  | none =>
      cases hlistener : stations.listener dest.address dest.port with
      | none => exact h
      | some server =>
          have hconnected : Sound stations (net.connect node server station dest port) := by
            refine ⟨h.framed, fun j hj => h.beyond j ?_, ?_, h.datagrams, h.inboxes, fun x hx => ?_⟩
            · refine Nat.le_trans ?_ hj
              rw [Traffic.connect, List.length_append]
              exact Nat.le_add_right _ _
            · exact h.wired.connect hstation htcp hdest hlookup hlistener
                (hfree server hlookup hlistener)
            · exact (h.delivered x hx).mono fun i s hs _ => getElem?_before hs _
          exact hconnected.writeTo (getElem?_client _ _) hout

theorem plane_tcp {transportType : Bytes} (h : station.plane transportType = some .tcp) :
    transportType = MessageBus.tcp ∧ station.enableTcp = true := by
  unfold Station.plane at h
  split at h
  · cases h
  · split at h
    · assumption
    · split at h <;> cases h

theorem plane_udp {transportType : Bytes} (h : station.plane transportType = some .udp) :
    station.enableUdp = true := by
  unfold Station.plane at h
  split at h
  · cases h
  · split at h
    · cases h
    · split at h
      · assumption
      · cases h

/-- What is sent over TCP is accepted at the other end. -/
def Accepted (stations : Stations) : Label → Prop
  | .send node dest out _ => ∀ station, stations.all[node]? = some station →
      station.plane dest.transportType = some .tcp → Acceptable out.bytes.length
  | _ => True

theorem Sound.send (h : Sound stations net)
    (henabled : net.enabled stations (.send node dest out port))
    (haccepted : Accepted stations (.send node dest out port)) :
    Sound stations (net.send stations node dest out port) := by
  rw [Traffic.send]
  cases hstation : stations.all[node]? with
  | none => exact h
  | some station =>
      dsimp only
      cases hplane : station.plane dest.transportType with
      | none => exact h
      | some kind =>
          cases kind with
          | udp => exact h.sendUdp hstation (plane_udp hplane)
          | shm => exact h.sendShm hstation
          | tcp =>
              obtain ⟨hdest, htcp⟩ := plane_tcp hplane
              exact h.sendTcp hstation htcp hdest (haccepted station hstation hplane)
                fun server hnew hlistener => henabled station server hstation hnew hlistener

/-! ### Arrivals -/

theorem Sound.receiveDatagram (h : Sound stations net) (k : Nat) :
    Sound stations (net.receiveDatagram stations k) := by
  rw [Traffic.receiveDatagram]
  cases hget : net.datagrams[k]? with
  | none => exact h
  | some datagram =>
      have herased : Sound stations { net with datagrams := net.datagrams.eraseIdx k } :=
        ⟨h.framed, h.beyond, h.wired, fun g hg => h.datagrams g (List.mem_of_mem_eraseIdx hg),
          h.inboxes, h.delivered⟩
      dsimp only
      split
      · exact herased
      · rename_i receiver hreceiver
        split
        · exact herased
        · split
          · exact herased
          · obtain ⟨found, hfound, hudp, _⟩ := Stations.receiver_spec hreceiver
            refine ⟨h.framed, h.beyond, h.wired, herased.datagrams, h.inboxes,
              forall_delivered h ?_⟩
            exact .udp ⟨found, hfound, hudp⟩ (h.datagrams datagram (List.mem_of_getElem? hget))

theorem Sound.accept (h : Sound stations net) (i : Nat) : Sound stations (net.accept i) := by
  rw [Traffic.accept]
  cases hget : net.sockets[i]? with
  | none => exact h
  | some socket =>
      dsimp only
      split
      · exact h
      · refine ⟨h.framed, ?_, h.wired.accept hget, h.datagrams, h.inboxes, fun x hx => ?_⟩
        · simp only [List.length_set]
          exact h.beyond
        · refine (h.delivered x hx).mono fun j s hs hrunning => ?_
          obtain ⟨t, ht, _, hsame⟩ := after_accepted hget hs
          rw [hsame hrunning] at ht
          exact ht

/-- A round hands over the first message that was not read, if there is one. -/
theorem round_cases (h : Sound stations net) (i : Nat) :
    (net.round i = net ∧ (net.incoming i = [] ∨
        ∀ socket, net.sockets[i]? = some socket → socket.running = false)) ∨
      ∃ socket data rest, net.sockets[i]? = some socket ∧
      socket.running = true ∧ Framed rest ∧ unread (net.incoming i) = data :: unread rest ∧
      net.round i = { net with
        incoming := Function.update net.incoming i rest
        delivered := net.delivered ++
          [{ node := socket.owner, source := socket.peer, data, sender := socket.remote }] } := by
  rw [Traffic.round]
  cases hget : net.sockets[i]? with
  | none => exact Or.inl ⟨rfl, Or.inr fun _ hsocket => by cases hsocket⟩
  | some socket =>
      dsimp only
      split
      · rename_i hrunning
        obtain ⟨hempty, hread⟩ | ⟨data, rest, hread, hrest, hunread⟩ :=
          TcpTransport.framed_round (h.framed i)
        · obtain ⟨far, hfar, _⟩ := h.wired.paired i socket hget
          simp only [hread, hfar, h.wired.opened _ far hfar, if_true]
          exact Or.inl ⟨trivial, Or.inl hempty⟩
        · simp only [hread]
          exact Or.inr ⟨socket, data, rest, rfl, hrunning, hrest, hunread, rfl⟩
      · rename_i hrunning
        refine Or.inl ⟨rfl, Or.inr fun other hother => ?_⟩
        obtain rfl := Option.some.inj hother
        exact Bool.eq_false_iff.mpr hrunning

theorem Sound.round (h : Sound stations net) (i : Nat) : Sound stations (net.round i) := by
  obtain ⟨hsame, _⟩ | ⟨socket, data, rest, hget, hrunning, hrest, _, hround⟩ := round_cases h i
  · rw [hsame]
    exact h
  · rw [hround]
    refine ⟨fun j => ?_, fun j hj => ?_, h.wired, h.datagrams, h.inboxes, forall_delivered h ?_⟩
    · by_cases heq : j = i
      · subst heq
        simp only [Function.update_self]
        exact hrest
      · simp only [Function.update_of_ne heq]
        exact h.framed j
    · have hi := (List.getElem?_eq_some_iff.mp hget).1
      have hne : j ≠ i := Nat.ne_of_gt (Nat.lt_of_lt_of_le hi hj)
      simp only [Function.update_of_ne hne]
      exact h.beyond j hj
    · exact .tcp i socket hget rfl rfl rfl hrunning

theorem Sound.consume (h : Sound stations net) (node : Nat) :
    Sound stations (net.consume stations node) := by
  rw [Traffic.consume]
  split
  · rename_i station sender written rest hstation hinbox
    have hmem : ∀ e ∈ net.inboxes node, Uses stations node Station.enableShm ∧
        ∃ station, stations.all[e.1]? = some station := h.inboxes node
    rw [hinbox] at hmem
    have htaken : Sound stations
        { net with inboxes := Function.update net.inboxes node rest } := by
      refine ⟨h.framed, h.beyond, h.wired, h.datagrams, fun n e he => ?_, h.delivered⟩
      by_cases heq : n = node
      · subst heq
        simp only [Function.update_self] at he
        exact hmem e (List.mem_cons_of_mem _ he)
      · simp only [Function.update_of_ne heq] at he
        exact h.inboxes n e he
    dsimp only
    split
    · exact htaken
    · obtain ⟨hreceiver, hsender⟩ := hmem (sender, written) List.mem_cons_self
      refine ⟨h.framed, h.beyond, h.wired, h.datagrams, htaken.inboxes, forall_delivered h ?_⟩
      exact .shm hreceiver hsender rfl
  · exact h

theorem Sound.next (h : Sound stations net) {l : Label} (henabled : net.enabled stations l)
    (haccepted : Accepted stations l) : Sound stations (net.next stations l) := by
  cases l with
  | send node dest out port => exact h.send henabled haccepted
  | datagram k => exact h.receiveDatagram k
  | accept i => exact h.accept i
  | round i => exact h.round i
  | consume node => exact h.consume node

theorem sound_empty : Sound stations {} where
  framed _ := ⟨[], by simp, rfl⟩
  beyond _ _ := rfl
  wired := by
    constructor
    case entry => exact fun _ _ _ hlookup => by cases hlookup
    case distinct => exact fun i _ _ _ h => absurd h (Option.some_ne_none _).symm
    all_goals exact fun i _ h => absurd h (Option.some_ne_none _).symm
  datagrams _ h := absurd h List.not_mem_nil
  inboxes _ _ h := absurd h List.not_mem_nil
  delivered _ h := absurd h List.not_mem_nil

theorem sound_of_reachable
    (h : ((system stations).restrict fun _ l => Accepted stations l).Reachable net) :
    Sound stations net := by
  refine h.invariant (fun s hinit => ?_) fun s l _ hs henabled => ?_
  · rw [show s = {} from hinit]
    exact sound_empty
  · exact hs.next henabled.1 henabled.2

end Traffic

end EmbedMq
