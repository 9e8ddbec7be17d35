import Mathlib.Algebra.Order.BigOperators.Group.List
import EmbedMq.Bus.Frame
import EmbedMq.Transport.Tracing

/-!
# Answers that arrive

A node answers to the endpoint that a message came from, so that endpoint has to lead
back to the sender. Over UDP it is the address of the sender's only socket, and over
TCP it is the key of the connection that the message was read from. A shared-memory
inbox does not say who has written to it, and nothing can be sent to the empty address
that stands for the sender.

What a node has been handed or is still to be handed does not change when something
arrives, so the order of arrivals does not matter.
-/

namespace EmbedMq

/-! ### Where the bus sends its answers -/

/-- An ACK, PUBREC, PUBREL, PUBCOMP or REPLY, and where it is sent. -/
def Effect.response : Effect → Option (Endpoint × Bytes)
  | frame _ dest slices => some (dest, slices.flatten)
  | answer dest data => some (dest, data)
  | _ => none

namespace MessageBus

/-- The answers among some effects go to an endpoint. -/
def AnswersTo (source : Endpoint) (effects : List Effect) : Prop :=
  ∀ e ∈ effects, ∀ dest data, e.response = some (dest, data) → dest = source

variable {env : Env} {bus : MessageBus} {source : Endpoint} {r : MessageCodec.DecodeResult}

theorem answersTo_nil : AnswersTo source [] := fun _ hmem => absurd hmem List.not_mem_nil

theorem answersTo_append {first second : List Effect} (hfirst : AnswersTo source first)
    (hsecond : AnswersTo source second) : AnswersTo source (first ++ second) := by
  intro e hmem
  obtain hmem | hmem := List.mem_append.mp hmem
  · exact hfirst e hmem
  · exact hsecond e hmem

theorem answersTo_answer (data : Bytes) : AnswersTo source [.answer source data] := by
  intro e hmem dest answer hresponse
  rw [List.mem_singleton.mp hmem] at hresponse
  exact (Prod.mk.inj (Option.some.inj hresponse)).1.symm

theorem answersTo_silent {effect : Effect} (h : effect.response = none) :
    AnswersTo source [effect] := by
  intro e hmem dest answer hresponse
  rw [List.mem_singleton.mp hmem, h] at hresponse
  cases hresponse

theorem answersTo_publishAnswer : AnswersTo source (bus.publishAnswer env source r) := by
  rw [publishAnswer]
  split
  · exact answersTo_answer _
  · exact answersTo_answer _
  · exact answersTo_nil

theorem answersTo_sendReply (corrId : UInt32) (payload : Bytes) (qos : QoSProfile)
    (registerRetransmit : Bool) :
    AnswersTo source (bus.sendReply env source corrId payload qos registerRetransmit).2 := by
  have hframe : ∀ n slices, AnswersTo source [.frame n source slices] := by
    intro n slices e hmem dest answer hresponse
    rw [List.mem_singleton.mp hmem] at hresponse
    exact (Prod.mk.inj (Option.some.inj hresponse)).1.symm
  rw [sendReply]
  dsimp only
  split
  · exact answersTo_append (hframe _ _) (answersTo_silent rfl)
  · exact hframe _ _

theorem answersTo_dispatch : AnswersTo source (bus.dispatch env source r).2 := by
  rw [dispatch]
  split
  · exact answersTo_silent rfl
  · rw [serveRequest]
    dsimp only
    split
    · exact answersTo_sendReply _ _ _ _
    · split
      · exact answersTo_append (answersTo_silent rfl) (answersTo_sendReply _ _ _ _)
      · exact answersTo_nil
  · have hacks : AnswersTo source
        (if QoSLevel.reliable ≤ QoSLevel.ofByte r.header.qosLevel then
          [bus.sendAck env source r.header.sequenceId] else []) := by
      split
      · exact answersTo_answer _
      · exact answersTo_nil
    rw [completeRequest]
    split
    · exact answersTo_append hacks (answersTo_silent rfl)
    · exact hacks
  · exact answersTo_nil

/-- A received frame is answered to the endpoint it came from. -/
theorem answersTo_onReceived (env : Env) (bus : MessageBus) (source : Endpoint) (data : Bytes) :
    AnswersTo source (bus.onReceived env source data).2 := by
  refine onReceived_elim env rfl ?_ ?_ ?_ ?_ ?_ ?_ ?_
  · exact fun _ => answersTo_nil
  · exact fun _ _ => answersTo_nil
  · intro _ _ e hmem dest answer hresponse
    obtain ⟨resend, _, rfl⟩ := List.mem_map.mp hmem
    cases hresponse
  · exact fun _ _ => answersTo_answer _
  · exact fun _ _ => answersTo_answer _
  · exact fun _ _ => answersTo_nil
  · intro _ _
    refine receiveData_elim env ?_ ?_ ?_
    · exact fun _ => answersTo_append answersTo_publishAnswer answersTo_dispatch
    · exact fun _ => answersTo_publishAnswer
    · exact fun _ => answersTo_append answersTo_publishAnswer answersTo_dispatch

end MessageBus

namespace Traffic

open TcpTransport (Acceptable Framed unread)

/-- A message that a node was handed, and the node that has sent it. -/
structure Receipt where
  sender : Nat
  data : Bytes
  deriving DecidableEq

def handed (node : Nat) (x : Delivery) : List Receipt :=
  if x.node = node then [⟨x.sender, x.data⟩] else []

/-- How often a node was handed a message from another. -/
def handedCount (net : Traffic) (node : Nat) (r : Receipt) : Nat :=
  (net.delivered.flatMap (handed node)).count r

/-- Nothing is in flight. -/
structure Quiet (net : Traffic) : Prop where
  datagrams : net.datagrams = []
  incoming : ∀ i, net.incoming i = []
  inboxes : ∀ node, net.inboxes node = []

/-- Everything that was in flight has arrived, in some order. -/
def Settles (stations : Stations) (net after : Traffic) : Prop :=
  ∃ arrivals : List Label, (∀ l ∈ arrivals, l.isArrival = true) ∧
    after = (system stations).exec net arrivals ∧ after.Quiet

/-- Once everything has arrived, the target was handed the message once more than it would have
been without the send. -/
structure Delivers (stations : Stations) (net : Traffic) (node : Nat) (dest : Endpoint)
    (data : Bytes) (target : Nat) (port : UInt16) : Prop where
  settles : ∃ after, Settles stations (net.send stations node dest (.buffer data) port) after
  without : ∃ after, Settles stations net after
  once : ∀ after without, Settles stations (net.send stations node dest (.buffer data) port) after →
    Settles stations net without →
    after.handedCount target ⟨node, data⟩ = without.handedCount target ⟨node, data⟩ + 1

/-! ### What is in flight -/

section Due

variable (stations : Stations) (net : Traffic) (node : Nat)

def arriving (g : Datagram) : List Receipt :=
  if stations.receiver g.address g.port = some node then
    match stations.all[node]? with
    | some station =>
        ((UdpTransport.received station.recvBufferSize g.data).map (Receipt.mk g.sender)).toList
    | none => []
  else []

def reading (i : Nat) : List Receipt :=
  match net.sockets[i]? with
  | some socket =>
      if socket.owner = node then (unread (net.incoming i)).map (Receipt.mk socket.remote) else []
  | none => []

def stored (e : Nat × Bytes) : List Receipt :=
  match stations.all[node]? with
  | some station =>
      ((ShmTransport.received station.slotSize e.2).map (Receipt.mk e.1)).toList
  | none => []

/-- What a node was handed, and what it will be handed. -/
def due : List Receipt :=
  net.delivered.flatMap (handed node) ++ net.datagrams.flatMap (arriving stations node) ++
    (List.range net.sockets.length).flatMap (net.reading node) ++
    (net.inboxes node).flatMap (stored stations node)

end Due

variable {stations : Stations} {net : Traffic} {node target : Nat} {r : Receipt}

theorem count_due (stations : Stations) (net : Traffic) (node : Nat) (r : Receipt) :
    (net.due stations node).count r = net.handedCount node r +
      (net.datagrams.flatMap (arriving stations node)).count r +
      ((List.range net.sockets.length).flatMap (net.reading node)).count r +
      ((net.inboxes node).flatMap (stored stations node)).count r := by
  rw [due, List.count_append, List.count_append, List.count_append]
  rfl

theorem count_due_of_quiet (h : net.Quiet) : (net.due stations node).count r =
    net.handedCount node r := by
  have hreading : (List.range net.sockets.length).flatMap (net.reading node) = [] := by
    rw [List.flatMap_eq_nil_iff]
    intro i _
    rw [reading, h.incoming i]
    split
    · split <;> rfl
    · rfl
  rw [count_due, h.datagrams, h.inboxes, hreading]
  rfl

/-- Only one part of a list of parts has changed. -/
theorem count_flatMap_change {ι : Type} {l : List ι} {i : ι} {f g : ι → List Receipt}
    (hnodup : l.Nodup) (hi : i ∈ l) (hother : ∀ j ∈ l, j ≠ i → g j = f j) (r : Receipt) :
    (l.flatMap g).count r + (f i).count r = (l.flatMap f).count r + (g i).count r := by
  obtain ⟨first, second, rfl⟩ := List.append_of_mem hi
  obtain ⟨_, hsecond, hdisjoint⟩ := List.nodup_append.mp hnodup
  have hfirst : first.flatMap g = first.flatMap f := by
    refine List.flatMap_congr fun j hj => hother j (List.mem_append_left _ hj) ?_
    exact hdisjoint j hj i List.mem_cons_self
  have hrest : second.flatMap g = second.flatMap f := by
    refine List.flatMap_congr fun j hj => ?_
    refine hother j (List.mem_append_right _ (List.mem_cons_of_mem _ hj)) ?_
    rintro rfl
    exact (List.nodup_cons.mp hsecond).1 hj
  simp only [List.flatMap_append, List.flatMap_cons, List.count_append, hfirst, hrest]
  omega

/-! ### Arrivals -/

theorem arriving_eq {g : Datagram} {receiver : Nat} {station : Station}
    (hreceiver : stations.receiver g.address g.port = some receiver)
    (hstation : stations.all[receiver]? = some station) (node : Nat) :
    arriving stations node g = if receiver = node then
      ((UdpTransport.received station.recvBufferSize g.data).map (Receipt.mk g.sender)).toList
      else [] := by
  by_cases heq : receiver = node
  · subst heq
    rw [arriving, if_pos hreceiver, if_pos rfl, hstation]
  · rw [arriving, if_neg heq, if_neg]
    intro hnode
    exact heq (Option.some.inj (hreceiver.symm.trans hnode))

theorem receiveDatagram_shape {k : Nat} {g : Datagram} (hget : net.datagrams[k]? = some g) :
    ∃ xs, net.receiveDatagram stations k =
        { net with
          datagrams := net.datagrams.eraseIdx k
          delivered := net.delivered ++ xs } ∧
      ∀ node, xs.flatMap (handed node) = arriving stations node g := by
  have hempty : ∀ net : Traffic, net = { net with delivered := net.delivered ++ [] } := by
    intro net
    rw [List.append_nil]
  simp only [receiveDatagram, hget]
  cases hreceiver : stations.receiver g.address g.port with
  | none =>
      refine ⟨[], hempty _, fun node => ?_⟩
      rw [arriving, hreceiver]
      rfl
  | some receiver =>
      obtain ⟨station, hstation, _⟩ := Stations.receiver_spec hreceiver
      simp only [hstation]
      cases hdata : UdpTransport.received station.recvBufferSize g.data with
      | none =>
          refine ⟨[], hempty _, fun node => ?_⟩
          rw [arriving_eq hreceiver hstation, hdata]
          exact (ite_self _).symm
      | some data =>
          refine ⟨_, rfl, fun node => ?_⟩
          rw [List.flatMap_singleton, arriving_eq hreceiver hstation, hdata]
          rfl

theorem consume_shape {station : Station} {e : Nat × Bytes} {rest : List (Nat × Bytes)}
    (hstation : stations.all[node]? = some station) (hinbox : net.inboxes node = e :: rest) :
    ∃ xs, net.consume stations node =
        { net with
          inboxes := Function.update net.inboxes node rest
          delivered := net.delivered ++ xs } ∧
      xs.flatMap (handed node) = stored stations node e ∧
      ∀ other, other ≠ node → xs.flatMap (handed other) = [] := by
  simp only [consume, hstation, hinbox]
  have hstored : stored stations node e =
      ((ShmTransport.received station.slotSize e.2).map (Receipt.mk e.1)).toList := by
    simp only [stored, hstation]
  cases hdata : ShmTransport.received station.slotSize e.2 with
  | none =>
      rw [hdata] at hstored
      refine ⟨[], ?_, hstored.symm, fun _ _ => rfl⟩
      rw [List.append_nil]
  | some data =>
      rw [hdata] at hstored
      refine ⟨_, rfl, ?_, fun other hne => ?_⟩
      · rw [List.flatMap_singleton, hstored]
        exact if_pos rfl
      · rw [List.flatMap_singleton]
        exact if_neg (Ne.symm hne)

/-- A message that its slot holds whole is delivered. -/
theorem mem_consume {station : Station} {written data : Bytes} {sender : Nat}
    {rest : List (Nat × Bytes)} (hstation : stations.all[node]? = some station)
    (hinbox : net.inboxes node = (sender, written) :: rest)
    (hdata : ShmTransport.received station.slotSize written = some data) :
    { node, data, sender, source := { address := [], transportType := MessageBus.shm } } ∈
      (net.consume stations node).delivered := by
  simp only [consume, hstation, hinbox, hdata]
  exact List.mem_append_right _ List.mem_cons_self

theorem handedCount_append (xs : List Delivery) :
    ((net.delivered ++ xs).flatMap (handed node)).count r =
      net.handedCount node r + (xs.flatMap (handed node)).count r := by
  rw [List.flatMap_append, List.count_append]
  rfl

theorem count_due_receiveDatagram (k : Nat) :
    ((net.receiveDatagram stations k).due stations node).count r =
      (net.due stations node).count r := by
  cases hget : net.datagrams[k]? with
  | none => simp only [receiveDatagram, hget]
  | some g =>
      obtain ⟨xs, hshape, hhanded⟩ := @receiveDatagram_shape stations net k g hget
      obtain ⟨hlt, hg⟩ := List.getElem?_eq_some_iff.mp hget
      have hsplit : net.datagrams = net.datagrams.take k ++ g :: net.datagrams.drop (k + 1) := by
        rw [← hg, List.cons_getElem_drop_succ, List.take_append_drop]
      have hwhole : (net.datagrams.flatMap (arriving stations node)).count r =
          ((net.datagrams.eraseIdx k).flatMap (arriving stations node)).count r +
            (arriving stations node g).count r := by
        rw [List.eraseIdx_eq_take_drop_succ]
        conv => lhs; rw [hsplit]
        simp only [List.flatMap_append, List.flatMap_cons, List.count_append]
        omega
      have hreading : reading { net with
          datagrams := net.datagrams.eraseIdx k
          delivered := net.delivered ++ xs } node = net.reading node := rfl
      rw [hshape, count_due, count_due, hwhole, handedCount, handedCount_append, hhanded, hreading]
      dsimp only
      omega

theorem count_due_accept (i : Nat) :
    ((net.accept i).due stations node).count r = (net.due stations node).count r := by
  cases hget : net.sockets[i]? with
  | none => simp only [accept, hget]
  | some socket =>
      simp only [accept, hget]
      split
      · rfl
      · have hreading : ∀ j, reading { net with
            sockets := net.sockets.set i { socket with running := true } } node j =
              net.reading node j := by
          intro j
          simp only [reading, List.getElem?_set]
          by_cases heq : i = j
          · subst heq
            rw [if_pos rfl, if_pos (List.getElem?_eq_some_iff.mp hget).1, hget]
          · rw [if_neg heq]
        simp only [due, List.length_set]
        exact congrArg (fun f : Nat → List Receipt => (net.delivered.flatMap (handed node) ++
          net.datagrams.flatMap (arriving stations node) ++
          (List.range net.sockets.length).flatMap f ++
          (net.inboxes node).flatMap (stored stations node)).count r) (funext hreading)

theorem count_due_round (h : Sound stations net) (i : Nat) :
    ((net.round i).due stations node).count r = (net.due stations node).count r := by
  obtain ⟨hsame, _⟩ | ⟨socket, data, rest, hget, _, _, hunread, hround⟩ := round_cases h i
  · rw [hsame]
  · have hlt := (List.getElem?_eq_some_iff.mp hget).1
    -- What was read here before is the message and what is read here afterwards.
    let net' : Traffic := { net with incoming := Function.update net.incoming i rest }
    have hother : ∀ j ∈ List.range net.sockets.length, j ≠ i →
        net'.reading node j = net.reading node j := by
      intro j _ hne
      simp only [net', reading, Function.update_of_ne hne]
    have hchange := count_flatMap_change List.nodup_range (List.mem_range.mpr hlt) hother r
    have hread : net.reading node i =
        handed node
            { node := socket.owner, source := socket.peer, data, sender := socket.remote } ++
          net'.reading node i := by
      simp only [net', reading, hget, hunread, Function.update_self, handed]
      split
      · rfl
      · rfl
    rw [hread, List.count_append] at hchange
    rw [hround, count_due, count_due, handedCount, handedCount_append, List.flatMap_singleton]
    change net.handedCount node r + _ +
      (net.datagrams.flatMap (arriving stations node)).count r +
      ((List.range net.sockets.length).flatMap (net'.reading node)).count r +
      ((net.inboxes node).flatMap (stored stations node)).count r = _
    omega

theorem count_due_consume (h : Sound stations net) (n : Nat) :
    ((net.consume stations n).due stations node).count r = (net.due stations node).count r := by
  cases hinbox : net.inboxes n with
  | nil =>
      simp only [consume, hinbox]
      cases stations.all[n]? <;> rfl
  | cons e rest =>
      have hmem : e ∈ net.inboxes n := by
        rw [hinbox]
        exact List.mem_cons_self
      obtain ⟨⟨station, hstation, _⟩, _⟩ := h.inboxes n e hmem
      obtain ⟨xs, hshape, hhanded, hothers⟩ :=
        @consume_shape stations net n station e rest hstation hinbox
      have hreading : reading { net with
          inboxes := Function.update net.inboxes n rest
          delivered := net.delivered ++ xs } node = net.reading node := rfl
      rw [hshape, count_due, count_due, handedCount, handedCount_append, hreading]
      by_cases heq : node = n
      · subst heq
        simp only [hhanded, hinbox, Function.update_self, List.flatMap_cons, List.count_append]
        omega
      · rw [hothers node heq]
        simp only [Function.update_of_ne heq, List.count_nil]
        omega

/-- An arrival leaves what is due as it is, and what holds in every run. -/
theorem arrival_next (h : Sound stations net) {l : Label} (harrival : l.isArrival = true) :
    Sound stations (net.next stations l) ∧
      ((net.next stations l).due stations node).count r = (net.due stations node).count r := by
  cases l with
  | send => cases harrival
  | datagram k => exact ⟨h.receiveDatagram k, count_due_receiveDatagram k⟩
  | accept i => exact ⟨h.accept i, count_due_accept i⟩
  | round i => exact ⟨h.round i, count_due_round h i⟩
  | consume n => exact ⟨h.consume n, count_due_consume h n⟩

theorem arrivals_exec (h : Sound stations net) {arrivals : List Label}
    (harrivals : ∀ l ∈ arrivals, l.isArrival = true) :
    (((system stations).exec net arrivals).due stations node).count r =
      (net.due stations node).count r := by
  induction arrivals generalizing net with
  | nil => rfl
  | cons l arrivals ih =>
      obtain ⟨hfirst, hrest⟩ := List.forall_mem_cons.mp harrivals
      obtain ⟨hsound, hcount⟩ := @arrival_next stations net node r h l hfirst
      exact (ih hsound hrest).trans hcount

/-- Once everything has arrived, a node was handed what was due. -/
theorem handedCount_of_settles (h : Sound stations net) {after : Traffic}
    (hafter : Settles stations net after) :
    after.handedCount node r = (net.due stations node).count r := by
  obtain ⟨arrivals, harrivals, rfl, hquiet⟩ := hafter
  rw [← arrivals_exec h harrivals, count_due_of_quiet hquiet]

/-! ### Everything arrives -/

/-- What is still to be done at a socket. -/
def work (net : Traffic) (i : Nat) : Nat :=
  (unread (net.incoming i)).length +
    match net.sockets[i]? with
    | some socket => if socket.running then 0 else 1
    | none => 0

/-- How many arrivals are left. -/
def load (stations : Stations) (net : Traffic) : Nat :=
  net.datagrams.length + ((List.range net.sockets.length).map net.work).sum +
    ((List.range stations.all.length).map fun node => (net.inboxes node).length).sum

theorem sum_lt_of_change {n i : Nat} {f g : Nat → Nat} (hi : i < n)
    (hother : ∀ j, j ≠ i → g j = f j) (hless : g i < f i) :
    ((List.range n).map g).sum < ((List.range n).map f).sum := by
  refine List.sum_lt_sum g f (fun j _ => ?_) ⟨i, List.mem_range.mpr hi, hless⟩
  by_cases heq : j = i
  · rw [heq]
    exact Nat.le_of_lt hless
  · exact Nat.le_of_eq (hother j heq)

theorem load_datagram (hsome : net.datagrams ≠ []) :
    (net.next stations (.datagram 0)).load stations < net.load stations := by
  obtain ⟨g, rest, hdatagrams⟩ := List.exists_cons_of_ne_nil hsome
  have hget : net.datagrams[0]? = some g := by
    rw [hdatagrams]
    rfl
  obtain ⟨xs, hshape, _⟩ := @receiveDatagram_shape stations net 0 g hget
  change (net.receiveDatagram stations 0).load stations < _
  rw [hshape, hdatagrams, load, load, hdatagrams]
  change rest.length + _ + _ < rest.length + 1 + _ + _
  exact Nat.add_lt_add_right (Nat.add_lt_add_right (Nat.lt_succ_self _) _) _

theorem load_round (h : Sound stations net) {i : Nat} {socket : Socket}
    (hget : net.sockets[i]? = some socket) (hrunning : socket.running = true)
    (hsome : net.incoming i ≠ []) :
    (net.next stations (.round i)).load stations < net.load stations := by
  change (net.round i).load stations < _
  obtain ⟨_, hempty | hidle⟩ | ⟨_, data, rest, _, _, _, hunread, hround⟩ := round_cases h i
  · exact absurd hempty hsome
  · exact absurd (hidle socket hget) (ne_false_of_eq_true hrunning)
  · rw [hround, load, load]
    refine Nat.add_lt_add_right (Nat.add_lt_add_left ?_ _) _
    refine sum_lt_of_change (List.getElem?_eq_some_iff.mp hget).1 (fun j hne => ?_) ?_
    · simp only [work, Function.update_of_ne hne]
    · simp only [work, Function.update_self, hunread, List.length_cons]
      omega

theorem load_accept (h : Sound stations net) {i : Nat} {socket : Socket}
    (hget : net.sockets[i]? = some socket) (hwaiting : socket.running = false) :
    (net.next stations (.accept i)).load stations < net.load stations := by
  change (net.accept i).load stations < _
  have hlt := (List.getElem?_eq_some_iff.mp hget).1
  have hopened := h.wired.opened i socket hget
  simp only [accept, hget, hwaiting, hopened, Bool.not_true, Bool.or_self, Bool.false_eq_true,
    if_false, load, List.length_set]
  refine Nat.add_lt_add_right (Nat.add_lt_add_left ?_ _) _
  refine sum_lt_of_change hlt (fun j hne => ?_) ?_
  · simp only [work, List.getElem?_set, if_neg (Ne.symm hne)]
  · simp only [work, List.getElem?_set, if_pos hlt, hget, hwaiting, if_true, Bool.false_eq_true,
      if_false]
    omega

theorem load_consume (h : Sound stations net) (hsome : net.inboxes node ≠ []) :
    (net.next stations (.consume node)).load stations < net.load stations := by
  obtain ⟨e, rest, hinbox⟩ := List.exists_cons_of_ne_nil hsome
  obtain ⟨⟨station, hstation, _⟩, _⟩ := h.inboxes node e (hinbox ▸ List.mem_cons_self)
  obtain ⟨xs, hshape, _⟩ := @consume_shape stations net node station e rest hstation hinbox
  change (net.consume stations node).load stations < _
  rw [hshape, load, load]
  refine Nat.add_lt_add_left ?_ _
  refine sum_lt_of_change (List.getElem?_eq_some_iff.mp hstation).1 (fun j hne => ?_) ?_
  · simp only [Function.update_of_ne hne]
  · simp only [Function.update_self, hinbox, List.length_cons]
    omega

/-- As long as something is in flight, something can arrive. -/
theorem exists_arrival (h : Sound stations net) (hbusy : ¬ net.Quiet) :
    ∃ l : Label, l.isArrival = true ∧ (net.next stations l).load stations < net.load stations := by
  by_cases hdatagrams : net.datagrams = []
  · by_cases hincoming : ∀ i, net.incoming i = []
    · by_cases hinboxes : ∀ node, net.inboxes node = []
      · exact absurd ⟨hdatagrams, hincoming, hinboxes⟩ hbusy
      · obtain ⟨node, hsome⟩ := not_forall.mp hinboxes
        exact ⟨.consume node, rfl, load_consume h hsome⟩
    · obtain ⟨i, hsome⟩ := not_forall.mp hincoming
      have hlt : i < net.sockets.length := by
        by_contra hge
        exact hsome (h.beyond i (Nat.not_lt.mp hge))
      have hget := List.getElem?_eq_getElem hlt
      cases hrunning : net.sockets[i].running with
      | true => exact ⟨.round i, rfl, load_round h hget hrunning hsome⟩
      | false => exact ⟨.accept i, rfl, load_accept h hget hrunning⟩
  · exact ⟨.datagram 0, rfl, load_datagram hdatagrams⟩

theorem exists_settles (h : Sound stations net) : ∃ after, Settles stations net after := by
  induction hload : net.load stations using Nat.strong_induction_on generalizing net with
  | _ n ih =>
      subst hload
      by_cases hquiet : net.Quiet
      · exact ⟨net, [], fun _ hl => absurd hl List.not_mem_nil, rfl, hquiet⟩
      · obtain ⟨l, harrival, hless⟩ := exists_arrival h hquiet
        have hnext := (@arrival_next stations net 0 ⟨0, []⟩ h l harrival).1
        obtain ⟨after, arrivals, harrivals, hafter, hrest⟩ := ih _ hless hnext rfl
        exact ⟨after, l :: arrivals, List.forall_mem_cons.mpr ⟨harrival, harrivals⟩, hafter, hrest⟩

/-! ### Answers -/

/-- A message of this length can be sent to a node over a transport. -/
def Fits (station : Station) (transportType : Bytes) (length : Nat) : Prop :=
  0 < length ∧
    if transportType = MessageBus.shm then length + ShmTransport.slotHeader ≤ station.slotSize
    else if transportType = MessageBus.tcp then length ≤ TcpTransport.maxMessage
    else length ≤ station.recvBufferSize ∧ length ≤ UdpTransport.maxDatagram

/-- What is sent to the source of a message reaches its sender; and so do the answers of the bus. -/
structure Answered (stations : Stations) (net : Traffic) (x : Delivery) : Prop where
  send : ∀ station data port, stations.all[x.sender]? = some station →
    Fits station x.source.transportType data.length →
    Delivers stations net x.node x.source data x.sender port
  answers : ∀ (env : Env) (bus : MessageBus) effect dest data station port,
    effect ∈ (bus.onReceived env x.source x.data).2 → effect.response = some (dest, data) →
    stations.all[x.sender]? = some station → Fits station dest.transportType data.length →
    Delivers stations net x.node dest data x.sender port

/-- A send adds one message to what is due. -/
theorem delivers_of_count {dest : Endpoint} {data : Bytes} {port : UInt16} (h : Sound stations net)
    (hsent : Sound stations (net.send stations node dest (.buffer data) port))
    (hcount : ((net.send stations node dest (.buffer data) port).due stations target).count
      ⟨node, data⟩ = (net.due stations target).count ⟨node, data⟩ + 1) :
    Delivers stations net node dest data target port where
  settles := exists_settles hsent
  without := exists_settles h
  once after without hafter hwithout := by
    rw [handedCount_of_settles hsent hafter, handedCount_of_settles h hwithout]
    exact hcount

theorem delivers_udp (h : Sound stations net) {sender receiver : Station} {data : Bytes}
    (port : UInt16) (hnode : stations.all[node]? = some receiver)
    (hreceiver : receiver.enableUdp = true) (htarget : stations.all[target]? = some sender)
    (hsender : sender.enableUdp = true) (hfits : Fits sender MessageBus.udp data.length) :
    Delivers stations net node
      { address := sender.ip, port := sender.udpPort, transportType := MessageBus.udp } data target
      port := by
  obtain ⟨hpos, hroom⟩ := hfits
  have hshm : MessageBus.udp ≠ MessageBus.shm := by decide
  have htcp : MessageBus.udp ≠ MessageBus.tcp := by decide
  rw [if_neg hshm, if_neg htcp] at hroom
  obtain ⟨hbuffer, hdatagram⟩ := hroom
  have hplane : receiver.plane MessageBus.udp = some .udp := by
    rw [Station.plane, if_neg fun heq => hshm heq.1, if_neg fun heq => htcp heq.1,
      if_pos hreceiver]
  have htransmit : UdpTransport.transmit (.buffer data) = (true, some data) := by
    have hlt : data.length < 2 ^ 31 := Nat.lt_of_le_of_lt hdatagram (by decide)
    have heq := @UdpTransport.transmit_eq (.buffer data) hlt
    rw [heq]
    exact if_pos hdatagram
  have hsend : net.send stations node
      { address := sender.ip, port := sender.udpPort, transportType := MessageBus.udp }
      (.buffer data) port = net.sendUdp node receiver
        { address := sender.ip, port := sender.udpPort, transportType := MessageBus.udp }
        (.buffer data) := by
    simp only [Traffic.send, hnode, hplane]
  refine delivers_of_count h ?_ ?_
  · rw [hsend]
    exact h.sendUdp hnode hreceiver
  · rw [hsend]
    have hreceived : UdpTransport.received sender.recvBufferSize data = some data := by
      rw [UdpTransport.received, List.take_of_length_le hbuffer]
      exact if_neg (by simpa using List.ne_nil_of_length_pos hpos)
    simp only [sendUdp, htransmit, due, List.flatMap_append, List.flatMap_singleton, arriving,
      Stations.receiver_eq htarget hsender, if_true, htarget, hreceived, Option.map_some,
      Option.toList_some, List.count_append, List.count_singleton_self]
    change _ + (_ + 1) +
      ((List.range net.sockets.length).flatMap (net.reading target)).count _ + _ = _
    omega

theorem count_due_write (h : Sound stations net) {i : Nat} {socket : Socket} {m : Bytes}
    (hget : net.sockets[i]? = some socket) (hm : Acceptable m.length) :
    ((net.writeTo i (TcpTransport.send m)).due stations socket.remote).count ⟨socket.owner, m⟩ =
      (net.due stations socket.remote).count ⟨socket.owner, m⟩ + 1 := by
  obtain ⟨far, hfar, howner, hremote⟩ := h.wired.paired i socket hget
  let net' : Traffic := { net with
    incoming := Function.update net.incoming socket.other
      (net.incoming socket.other ++ TcpTransport.send m) }
  have hother : ∀ j ∈ List.range net.sockets.length, j ≠ socket.other →
      net'.reading socket.remote j = net.reading socket.remote j := by
    intro j _ hne
    simp only [net', reading, Function.update_of_ne hne]
  have hread : net'.reading socket.remote socket.other =
      net.reading socket.remote socket.other ++ [⟨socket.owner, m⟩] := by
    simp only [net', reading, hfar, howner, hremote, if_true, Function.update_self,
      (TcpTransport.framed_append (h.framed socket.other) hm).2, List.map_append,
      List.map_singleton]
  have hlt := (List.getElem?_eq_some_iff.mp hfar).1
  have hchange := count_flatMap_change List.nodup_range (List.mem_range.mpr hlt) hother
    ⟨socket.owner, m⟩
  rw [hread, List.count_append, List.count_singleton_self] at hchange
  rw [writeTo_eq h.wired hget, count_due, count_due]
  change net.handedCount socket.remote _ +
    (net.datagrams.flatMap (arriving stations socket.remote)).count _ +
    ((List.range net.sockets.length).flatMap (net'.reading socket.remote)).count _ +
    ((net.inboxes socket.remote).flatMap (stored stations socket.remote)).count _ = _
  omega

theorem delivers_tcp (h : Sound stations net) {i : Nat} {socket : Socket} {data : Bytes}
    (port : UInt16) (hget : net.sockets[i]? = some socket) (hrunning : socket.running = true)
    (hdata : Acceptable data.length) :
    Delivers stations net socket.owner socket.peer data socket.remote port := by
  obtain ⟨htype, station, hstation, htcp⟩ := h.wired.tcp i socket hget
  have hshm : MessageBus.tcp ≠ MessageBus.shm := by decide
  have hplane : station.plane socket.peer.transportType = some .tcp := by
    rw [htype, Station.plane, if_neg fun heq => hshm heq.1, if_pos ⟨rfl, htcp⟩]
  have hsend : net.send stations socket.owner socket.peer (.buffer data) port =
      net.writeTo i (TcpTransport.transmit (.buffer data)) := by
    simp only [Traffic.send, hstation, hplane, sendTcp, h.wired.named i socket hget hrunning]
  refine delivers_of_count h ?_ ?_
  · rw [hsend]
    exact h.writeTo hget hdata
  · rw [hsend, TcpTransport.transmit_eq]
    exact count_due_write h hget hdata

/-- Nothing is sent to the source of a message from an inbox. -/
theorem not_delivers_shm {data : Bytes} (port : UInt16)
    (hnode : Uses stations node Station.enableShm) :
    ¬ Delivers stations net node { address := [], transportType := MessageBus.shm } data target
      port := by
  intro hdelivers
  obtain ⟨station, hstation, hshm⟩ := hnode
  have hplane : station.plane MessageBus.shm = some .shm := by
    rw [Station.plane, if_pos ⟨rfl, hshm⟩]
  have hsend : net.send stations node { address := [], transportType := MessageBus.shm }
      (.buffer data) port = net := by
    simp only [Traffic.send, hstation, hplane, sendShm, List.isEmpty_nil, if_true]
  obtain ⟨after, hafter⟩ := hdelivers.without
  have honce := hdelivers.once after after (hsend.symm ▸ hafter) hafter
  omega

theorem not_answered_shm (h : Sound stations net) {x : Delivery} (hx : x ∈ net.delivered)
    (hshm : x.source.transportType = MessageBus.shm) : ¬ Answered stations net x := by
  intro hanswered
  cases h.delivered x hx with
  | udp receiver source =>
      obtain ⟨station, _, _, hsource⟩ := source
      have hudp : MessageBus.udp ≠ MessageBus.shm := by decide
      rw [hsource] at hshm
      exact hudp hshm
  | tcp i socket found owner remote peer running =>
      rw [← peer, (h.wired.tcp i socket found).1] at hshm
      exact absurd hshm (by decide)
  | shm receiver sender source =>
      obtain ⟨station, hstation⟩ := sender
      have hfits : Fits station x.source.transportType [(0 : UInt8)].length := by
        have hroomy := station.roomy
        refine ⟨by decide, ?_⟩
        rw [if_pos hshm]
        simp only [List.length_singleton, ShmTransport.slotHeader]
        omega
      have hdelivers := hanswered.send station [0] 0 hstation hfits
      rw [source] at hdelivers
      exact not_delivers_shm 0 receiver hdelivers

theorem answered_of_source (h : Sound stations net) {x : Delivery} (hx : x ∈ net.delivered)
    (hsource : x.source.transportType ≠ MessageBus.shm) : Answered stations net x := by
  have hsend : ∀ station data port, stations.all[x.sender]? = some station →
      Fits station x.source.transportType data.length →
      Delivers stations net x.node x.source data x.sender port := by
    intro station data port hstation hfits
    cases h.delivered x hx with
    | udp receiver source =>
        obtain ⟨node, hnode, hreceiver⟩ := receiver
        obtain ⟨sender, hsender, hudp, heq⟩ := source
        obtain rfl := Option.some.inj (hstation.symm.trans hsender)
        rw [heq] at hfits ⊢
        exact delivers_udp h port hnode hreceiver hstation hudp hfits
    | tcp i socket found owner remote peer running =>
        obtain ⟨hpos, hroom⟩ := hfits
        have htype := (h.wired.tcp i socket found).1
        rw [peer] at htype
        rw [if_neg hsource, if_pos htype] at hroom
        rw [← owner, ← remote, ← peer]
        exact delivers_tcp h port found running ⟨hpos, hroom⟩
    | shm receiver sender source => exact absurd (congrArg Endpoint.transportType source) hsource
  refine ⟨hsend, fun env bus effect dest data station port hmem hresponse hstation hfits => ?_⟩
  obtain rfl :=
    MessageBus.answersTo_onReceived env bus x.source x.data effect hmem dest data hresponse
  exact hsend station data port hstation hfits

/-- In every run in which the connections carry only messages that the other end accepts, the
sender of a message can be answered if and only if the message did not come through shared
memory. -/
theorem answered_iff
    (h : ((system stations).restrict fun _ l => Accepted stations l).Reachable net)
    {x : Delivery} (hx : x ∈ net.delivered) :
    Answered stations net x ↔ x.source.transportType ≠ MessageBus.shm := by
  have hsound := sound_of_reachable h
  constructor
  · intro hanswered hshm
    exact not_answered_shm hsound hx hshm hanswered
  · exact answered_of_source hsound hx

/-! ### Two neighbours -/

/-- A process without TCP. -/
def neighbour (name : UInt8) : Station where
  ip := [name]
  machine := 0
  enableUdp := true
  enableTcp := false
  enableShm := true
  udpPort := 1
  tcpPort := 0
  shmName := [name]

/-- Two processes on one machine. -/
def neighbours : Stations where
  all := [neighbour 1, neighbour 2]
  distinct := by
    intro i j first second hfirst hsecond _ _ hip _
    have hne : (neighbour 1).ip ≠ (neighbour 2).ip := by decide
    obtain ⟨hi, rfl⟩ := List.getElem?_eq_some_iff.mp hfirst
    obtain ⟨hj, rfl⟩ := List.getElem?_eq_some_iff.mp hsecond
    have hbound : i < 2 ∧ j < 2 := ⟨hi, hj⟩
    obtain ⟨rfl | rfl, rfl | rfl⟩ : (i = 0 ∨ i = 1) ∧ (j = 0 ∨ j = 1) := by omega
    · rfl
    · exact absurd hip hne
    · exact absurd hip.symm hne
    · rfl

/-- The first process sends a message, which arrives. -/
def oneMessage (transportType data : Bytes) : List Label :=
  [.send 0 { address := [2], port := 1, transportType } (.buffer data) 0, .datagram 0, .consume 1]

theorem oneMessage_reachable {transportType : Bytes} (htype : transportType ≠ MessageBus.tcp)
    (data : Bytes) :
    ((system neighbours).restrict fun _ l => Accepted neighbours l).Reachable
      ((system neighbours).exec {} (oneMessage transportType data)) := by
  have haccepted : Accepted neighbours
      (.send 0 { address := [2], port := 1, transportType } (.buffer data) 0) :=
    fun _ _ hplane => absurd (plane_tcp hplane).1 htype
  have hsend : enabled neighbours {}
      (.send 0 { address := [2], port := 1, transportType } (.buffer data) 0) :=
    fun _ _ _ _ hlistener => by cases hlistener
  have hadmits : ((system neighbours).restrict fun _ l => Accepted neighbours l).Admits {}
      (oneMessage transportType data) :=
    ⟨⟨hsend, haccepted⟩, ⟨trivial, trivial⟩, ⟨trivial, trivial⟩, trivial⟩
  exact TransitionSystem.Reachable.exec (.init rfl) hadmits

theorem answered_datagram :
    Answered neighbours ((system neighbours).exec {} (oneMessage MessageBus.udp [0]))
      { node := 1, data := [0], sender := 0
        source := { address := [1], port := 1, transportType := MessageBus.udp } } := by
  have hmem : (⟨1, ⟨[1], 1, MessageBus.udp⟩, [0], 0⟩ : Delivery) ∈
      ((system neighbours).exec {} (oneMessage MessageBus.udp [0])).delivered :=
    List.mem_singleton.mpr rfl
  have hreach := oneMessage_reachable (show MessageBus.udp ≠ MessageBus.tcp by decide) [0]
  exact (answered_iff hreach hmem).mpr (by decide)

theorem mem_delivered_shm {data : Bytes} (hpos : 0 < data.length)
    (hroom : data.length + ShmTransport.slotHeader ≤ ShmTransport.defaultSlotSize) :
    { node := 1, data, sender := 0
      source := { address := [], transportType := MessageBus.shm } } ∈
        ((system neighbours).exec {} (oneMessage MessageBus.shm data)).delivered := by
  have hwritten : (ShmTransport.write ShmTransport.defaultSlotSize ShmTransport.defaultSlotCount
      data []).1 = true := by
    rw [ShmTransport.write, if_neg (Nat.not_lt.mpr hroom), if_neg (by decide)]
  have hsent : Traffic.send neighbours 0
      { address := [2], port := 1, transportType := MessageBus.shm } (.buffer data) 0 {} =
        { inboxes := Function.update (fun _ => []) 1 [(0, data)] } := by
    change (if (ShmTransport.write ShmTransport.defaultSlotSize ShmTransport.defaultSlotCount
      data []).1 then _ else _) = _
    rw [if_pos hwritten]
    rfl
  change _ ∈ (Traffic.consume neighbours 1 (Traffic.receiveDatagram neighbours 0
    (Traffic.send neighbours 0 _ (.buffer data) 0 {}))).delivered
  rw [hsent]
  exact mem_consume rfl rfl (ShmTransport.received_eq hpos hroom)

/-- A reliable PUBLISH. -/
def reliablePublish : MessageCodec.EncodeArgs where
  type := .publish
  sourceId := 1
  destId := 0xFFFF
  topic := [0x74]
  payload := []
  qos := { level := .reliable }
  sequenceId := 0

/-- A reliable PUBLISH that comes through shared memory cannot be answered. -/
theorem not_answered :
    ¬ ∀ (stations : Stations) (net : Traffic) (x : Delivery), (system stations).Reachable net →
      x ∈ net.delivered → Answered stations net x := by
  intro hclaim
  have henc : MessageCodec.Encodable reliablePublish := ⟨by decide, by decide⟩
  have hlength := MessageCodec.encode_length henc 0
  have hpos : 0 < (MessageCodec.encode reliablePublish 0).length := by
    rw [hlength]
    decide
  have hroom : (MessageCodec.encode reliablePublish 0).length + ShmTransport.slotHeader ≤
      ShmTransport.defaultSlotSize := by
    rw [hlength]
    decide
  have hreach := oneMessage_reachable (show MessageBus.shm ≠ MessageBus.tcp by decide)
    (MessageCodec.encode reliablePublish 0)
  have hdelivered := mem_delivered_shm hpos hroom
  exact not_answered_shm (sound_of_reachable hreach) hdelivered rfl
    (hclaim _ _ _ hreach.of_restrict hdelivered)

end Traffic

end EmbedMq
