import EmbedMq.Transport.ShmSender
import EmbedMq.Transport.TcpSender

/-!
# Slices are sent like one buffer

Each transport has `sendv` beside `send`. The shared-memory transport repeats the whole
reservation, the TCP transport writes the slices one by one, and the default implementation
gathers them. All three do what `send` does with the slices joined together.
-/

namespace EmbedMq

namespace ITransport

/-- The loop of `sendv` over the slices, with the buffer so far. -/
def gather : Bytes → List Bytes → Bytes
  | buf, [] => buf
  | buf, slice :: rest => gather (buf ++ slice) rest

/-- The default implementation, over the `send` of a transport. -/
def sendv {σ : Type*} (send : Endpoint → Bytes → σ → Bool × σ) (endpoint : Endpoint)
    (slices : List Bytes) (s : σ) : Bool × σ :=
  send endpoint (gather [] slices) s

theorem gather_eq (buf : Bytes) (slices : List Bytes) :
    gather buf slices = buf ++ slices.flatten := by
  induction slices generalizing buf with
  | nil => exact (List.append_nil buf).symm
  | cons slice rest ih => rw [gather, ih, List.flatten_cons, List.append_assoc]

theorem sendv_flatten {σ : Type*} (send : Endpoint → Bytes → σ → Bool × σ) (endpoint : Endpoint)
    (slices : List Bytes) (s : σ) :
    sendv send endpoint slices s = send endpoint slices.flatten s := by
  rw [sendv, gather_eq, List.nil_append]

end ITransport

namespace TcpTransport

/-- No system call fails, for as many as some bytes can need. -/
structure Succeeding (outcomes : List Nat) (size : Nat) : Prop where
  enough : size ≤ outcomes.length
  positive : ∀ n ∈ outcomes, 0 < n

/-- The bytes are written, and the calls go on succeeding. -/
theorem sendAll_succeeding {outcomes : List Nat} {data : Bytes} {size : Nat}
    (h : Succeeding outcomes (data.length + size)) (hsize : data.length < 2 ^ 31) :
    (sendAll outcomes data).ok = true ∧ Succeeding (sendAll outcomes data).outcomes size := by
  induction outcomes generalizing data with
  | nil =>
      have hle : data.length + size ≤ 0 := h.enough
      have hnil : data = [] := List.length_eq_zero_iff.mp (by omega)
      exact ⟨decide_eq_true hnil, ⟨by omega, h.positive⟩⟩
  | cons n outcomes ih =>
      obtain ⟨hn, hpositive⟩ := List.forall_mem_cons.mp h.positive
      have henough : data.length + size ≤ outcomes.length + 1 := h.enough
      rw [sendAll]
      split
      · rename_i hnil
        exact ⟨rfl, ⟨by simpa [hnil] using h.enough, h.positive⟩⟩
      · rename_i hne
        have hlength : 0 < data.length := List.length_pos_iff.mpr hne
        have hint : (intOfSize data.length).toNat = data.length := by
          rw [intOfSize_eq hsize, Int.toNat_natCast]
        have htaken : min n data.length ≠ 0 := by omega
        dsimp only
        rw [hint, if_neg htaken]
        refine ih ⟨?_, hpositive⟩ ?_
        · rw [List.length_drop]
          omega
        · rw [List.length_drop]
          omega

theorem andThen_succeeding {first : Sent} {next : List Nat → Sent} {size size' : Nat}
    (hfirst : first.ok = true ∧ Succeeding first.outcomes size)
    (hnext : ∀ outcomes, Succeeding outcomes size →
      (next outcomes).ok = true ∧ Succeeding (next outcomes).outcomes size') :
    (first.andThen next).ok = true ∧ Succeeding (first.andThen next).outcomes size' := by
  rw [Sent.andThen, if_pos hfirst.1]
  exact hnext first.outcomes hfirst.2

theorem sendSlices_succeeding {slices : List Bytes} {outcomes : List Nat} {size : Nat}
    (h : Succeeding outcomes (slices.flatten.length + size))
    (hsize : slices.flatten.length < 2 ^ 31) :
    (sendSlices slices outcomes).ok = true ∧
      Succeeding (sendSlices slices outcomes).outcomes size := by
  induction slices generalizing outcomes with
  | nil =>
      rw [List.flatten_nil, List.length_nil, Nat.zero_add] at h
      exact ⟨rfl, h⟩
  | cons slice rest ih =>
      rw [List.flatten_cons, List.length_append] at hsize
      rw [List.flatten_cons, List.length_append, Nat.add_assoc] at h
      rw [sendSlices]
      split
      · rename_i hnil
        rw [hnil, List.length_nil, Nat.zero_add] at h
        exact ih h (by omega)
      · exact andThen_succeeding (sendAll_succeeding h (by omega)) fun o ho => ih ho (by omega)

/-- The whole frame is written when no system call fails. -/
theorem writeFrame_succeeding {outcomes : List Nat} {m : Outgoing}
    (h : Succeeding outcomes (4 + m.bytes.length)) (hsize : m.bytes.length < 2 ^ 31) :
    (writeFrame outcomes m).ok = true := by
  have hlength : ∀ len, (encodeLen len).length < 2 ^ 31 := by
    intro len
    change 4 < 2 ^ 31
    decide
  have hhead : ∀ len, (sendAll outcomes (encodeLen len)).ok = true ∧
      Succeeding (sendAll outcomes (encodeLen len)).outcomes m.bytes.length :=
    fun len => sendAll_succeeding h (hlength len)
  cases m with
  | buffer data =>
      exact (andThen_succeeding (hhead _) fun o ho => @sendAll_succeeding o data 0 ho hsize).1
  | slices slices =>
      exact (andThen_succeeding (hhead _) fun o ho =>
        @sendSlices_succeeding slices o 0 ho hsize).1

namespace Sender

/-- The same connections, and the same bytes on each of them. -/
structure SameWire (s t : Sender) : Prop where
  active : s.active = t.active
  current : s.current = t.current
  made : s.made = t.made
  stream : ∀ conn, s.stream conn = t.stream conn

theorem SameWire.refl (s : Sender) : SameWire s s := ⟨rfl, rfl, rfl, fun _ => rfl⟩

/-- A frame that is written in full. -/
theorem write_stream {s : Sender} {conn : Nat} {m : Outgoing} {outcomes : List Nat}
    (hok : (writeFrame outcomes m).ok = true) (conn' : Nat) :
    (s.write conn m outcomes).2.stream conn' =
      if conn' = conn then s.stream conn ++ TcpTransport.send m.bytes else s.stream conn' := by
  rw [stream]
  split
  · rename_i heq
    rw [heq, write_attempts, List.map_append, List.flatten_append, List.map_singleton,
      List.flatten_singleton, accepted_of_ok hok]
    rfl
  · rename_i hne
    rw [write_attempts_of_ne s m outcomes hne]
    rfl

theorem write_sameWire (s : Sender) (conn : Nat) {m m' : Outgoing} {outcomes outcomes' : List Nat}
    (hok : (writeFrame outcomes m).ok = true) (hok' : (writeFrame outcomes' m').ok = true)
    (hbytes : m.bytes = m'.bytes) :
    (s.write conn m outcomes).1 = (s.write conn m' outcomes').1 ∧
      SameWire (s.write conn m outcomes).2 (s.write conn m' outcomes').2 := by
  refine ⟨hok.trans hok'.symm, rfl, rfl, rfl, fun conn' => ?_⟩
  rw [write_stream hok, write_stream hok', hbytes]

theorem call_slices (s : Sender) (connects : Bool) {slices : List Bytes}
    (hsize : slices.flatten.length < 2 ^ 31) {outcomes outcomes' : List Nat}
    (h : Succeeding outcomes (4 + slices.flatten.length))
    (h' : Succeeding outcomes' (4 + slices.flatten.length)) :
    (s.call (.slices slices) connects outcomes).1 =
        (s.call (.buffer slices.flatten) connects outcomes').1 ∧
      SameWire (s.call (.slices slices) connects outcomes).2
        (s.call (.buffer slices.flatten) connects outcomes').2 := by
  have hok : (writeFrame outcomes (.slices slices)).ok = true := writeFrame_succeeding h hsize
  have hok' : (writeFrame outcomes' (.buffer slices.flatten)).ok = true :=
    writeFrame_succeeding h' hsize
  rw [call, call]
  split
  · exact ⟨rfl, SameWire.refl s⟩
  · obtain ⟨found, t⟩ := s.getOrConnect connects
    cases found with
    | none => exact ⟨rfl, SameWire.refl t⟩
    | some conn => exact write_sameWire t conn hok hok' rfl

end Sender

end TcpTransport

/-- `sendv` returns what `send` of the joined slices returns, and does the same: to the segments
and the drop counter of the shared-memory transport whatever others do meanwhile, to the stream of
a TCP connection when no write fails, and with the default implementation over any `send`. -/
theorem sendv_eq_send {slices : List Bytes} (hsize : slices.flatten.length < 2 ^ 31)
    (endpoint : Endpoint) :
    (∀ (s : ShmSender) (others : ShmTransport.Others),
      s.sendv others endpoint slices = s.send others endpoint slices.flatten) ∧
    (∀ (s : TcpTransport.Sender) (connects : Bool) (outcomes outcomes' : List Nat),
      TcpTransport.Succeeding outcomes (4 + slices.flatten.length) →
      TcpTransport.Succeeding outcomes' (4 + slices.flatten.length) →
      (s.call (.slices slices) connects outcomes).1 =
          (s.call (.buffer slices.flatten) connects outcomes').1 ∧
        TcpTransport.Sender.SameWire (s.call (.slices slices) connects outcomes).2
          (s.call (.buffer slices.flatten) connects outcomes').2) ∧
    (∀ {σ : Type*} (send : Endpoint → Bytes → σ → Bool × σ) (s : σ),
      ITransport.sendv send endpoint slices s = send endpoint slices.flatten s) :=
  ⟨fun s others => s.sendv_flatten others endpoint slices,
    fun s connects _ _ h h' => s.call_slices connects hsize h h',
    fun send s => ITransport.sendv_flatten send endpoint slices s⟩

/-- A peer with the smallest inbox. -/
def smallPeer : ShmSender where
  names := AList.insert [112] 0 ∅
  regions _ := { header := { slotSize := 64, slotCount := 2 }, totalSize := 160 }

theorem sendv_eq_send_three :
    smallPeer.sendv {} ⟨[112], 0, []⟩ [[1], [], [2, 3]] =
        smallPeer.send {} ⟨[112], 0, []⟩ [1, 2, 3] ∧
      (TcpTransport.Sender.call {} (.slices [[1], [], [2, 3]]) true [4, 1, 2, 1, 1, 1, 1]).1 =
        (TcpTransport.Sender.call {} (.buffer [1, 2, 3]) true [1, 2, 3, 4, 5, 6, 7]).1 := by
  have hsize : ([[1], [], [2, 3]] : List Bytes).flatten.length < 2 ^ 31 := by decide
  obtain ⟨hshm, htcp, -⟩ := sendv_eq_send.{0} hsize ⟨[112], 0, []⟩
  exact ⟨hshm smallPeer {}, (htcp {} true _ _ ⟨by decide, by decide⟩ ⟨by decide, by decide⟩).1⟩

example : (smallPeer.sendv {} ⟨[112], 0, []⟩ [[1], [], [2, 3]]).1 = true := by decide

end EmbedMq
