import EmbedMq.Transport.Basic

/-!
# Messages on a TCP stream

The loops of `TcpTransport` around the system calls. A `recv` returns some of the bytes that it
is asked for, and none at the end of the stream. A `send` accepts some of the bytes that it is
given, and none when it fails.

What `clientLoop` delivers depends on the stream alone. A frame that is not written in full is
the last one that can be read.
-/

namespace EmbedMq

namespace TcpTransport

/-! ### Receiving -/

/-- How a stream is cut into the results of `recv`: the size of the one at a position, if so
many bytes are left. -/
structure Cuts where
  size : (position requested : Nat) → Nat
  size_pos : ∀ position requested, 0 < requested → 0 < size position requested
  size_le : ∀ position requested, size position requested ≤ requested

/-- The receiving end of a connection. -/
structure Incoming where
  position : Nat := 0
  left : Bytes

/-- `SocketApi::recv`. -/
def recv (c : Cuts) (conn : Incoming) (requested : Nat) : Bytes × Incoming :=
  let n := min (c.size conn.position requested) conn.left.length
  (conn.left.take n, ⟨conn.position + n, conn.left.drop n⟩)

theorem recv_fst_append (c : Cuts) (conn : Incoming) (requested : Nat) :
    (recv c conn requested).1 ++ (recv c conn requested).2.left = conn.left :=
  List.take_append_drop ..

/-- It returns nothing at the end of the stream only. -/
theorem recv_eq_nil_iff (c : Cuts) (conn : Incoming) {requested : Nat} (h : 0 < requested) :
    (recv c conn requested).1 = [] ↔ conn.left = [] := by
  have hpos := c.size_pos conn.position requested h
  rw [recv, List.take_eq_nil_iff]
  constructor
  · rintro (hzero | hnil)
    · exact List.eq_nil_of_length_eq_zero (by omega)
    · exact hnil
  · exact .inr

theorem length_recv_le (c : Cuts) (conn : Incoming) (requested : Nat) :
    (recv c conn requested).1.length ≤ requested := by
  have hle := c.size_le conn.position requested
  rw [recv, List.length_take]
  omega

/-- `recvAll`, with `got` bytes in the buffer. -/
def recvAll (c : Cuts) (size : Nat) (got : Bytes) (conn : Incoming) : Option Bytes × Incoming :=
  if got.length < size then
    let result := recv c conn (size - got.length)
    if result.1 = [] then (none, result.2)
    else recvAll c size (got ++ result.1) result.2
  else (some got, conn)
  termination_by size - got.length
  decreasing_by
    rename_i hlt hne
    have hpos : 0 < (recv c conn (size - got.length)).1.length := List.length_pos_of_ne_nil hne
    change size - (got ++ (recv c conn (size - got.length)).1).length < size - got.length
    rw [List.length_append]
    omega

/-- The bytes that are read stand at the front of the stream, whatever the cuts. -/
theorem recvAll_some {c : Cuts} {size : Nat} {got data : Bytes} {conn conn' : Incoming}
    (h : recvAll c size got conn = (some data, conn')) (hgot : got.length ≤ size) :
    data.length = size ∧ got ++ conn.left = data ++ conn'.left := by
  induction got, conn using recvAll.induct c size with
  | case1 got conn hlt result hnil =>
      rw [recvAll, if_pos hlt] at h
      dsimp only at h
      rw [if_pos hnil] at h
      cases h
  | case2 got conn hlt result hne ih =>
      rw [recvAll, if_pos hlt] at h
      dsimp only at h
      rw [if_neg hne] at h
      have hle := length_recv_le c conn (size - got.length)
      have hroom : (got ++ result.1).length ≤ size := by
        rw [List.length_append]
        change got.length + (recv c conn (size - got.length)).1.length ≤ size
        omega
      obtain ⟨hlength, happend⟩ := ih h hroom
      refine ⟨hlength, ?_⟩
      rw [← happend, List.append_assoc]
      exact congrArg (got ++ ·) (recv_fst_append c conn _).symm
  | case3 got conn hlt =>
      rw [recvAll, if_neg hlt] at h
      obtain ⟨hdata, hconn⟩ := Prod.mk.inj h
      rw [← Option.some.inj hdata, ← hconn]
      exact ⟨by omega, rfl⟩

/-- It fails only if the stream ends too early. -/
theorem recvAll_none {c : Cuts} {size : Nat} {got : Bytes} {conn : Incoming}
    (h : (recvAll c size got conn).1 = none) : got.length + conn.left.length < size := by
  induction got, conn using recvAll.induct c size with
  | case1 got conn hlt result hnil =>
      have hend := (recv_eq_nil_iff c conn (Nat.sub_pos_of_lt hlt)).mp hnil
      rw [hend]
      exact hlt
  | case2 got conn hlt result hne ih =>
      rw [recvAll, if_pos hlt] at h
      dsimp only at h
      rw [if_neg hne] at h
      have hlength := congrArg List.length (recv_fst_append c conn (size - got.length))
      have hshort := ih h
      rw [List.length_append] at hlength hshort
      change got.length + (recv c conn (size - got.length)).1.length +
        (recv c conn (size - got.length)).2.left.length < size at hshort
      omega
  | case3 got conn hlt =>
      rw [recvAll, if_neg hlt] at h
      cases h

/-- The length prefix of the next message. -/
def recvLen (c : Cuts) (conn : Incoming) : Option UInt32 × Incoming :=
  match recvAll c 4 [] conn with
  | (some [b₀, b₁, b₂, b₃], body) => (some (decodeLen b₀ b₁ b₂ b₃), body)
  | (_, body) => (none, body)

theorem recvLen_some {c : Cuts} {conn body : Incoming} {len : UInt32}
    (h : recvLen c conn = (some len, body)) :
    ∃ b₀ b₁ b₂ b₃, len = decodeLen b₀ b₁ b₂ b₃ ∧ conn.left = b₀ :: b₁ :: b₂ :: b₃ :: body.left := by
  rw [recvLen] at h
  split at h
  · rename_i b₀ b₁ b₂ b₃ body' hread
    obtain ⟨hlen, rfl⟩ := Prod.mk.inj h
    exact ⟨b₀, b₁, b₂, b₃, (Option.some.inj hlen).symm,
      (recvAll_some hread (Nat.zero_le 4)).2⟩
  · cases h

theorem recvLen_none {c : Cuts} {conn : Incoming} (h : (recvLen c conn).1 = none) :
    conn.left.length < 4 := by
  have hlength : (recvAll c 4 [] conn).1 = none := by
    cases hread : recvAll c 4 [] conn with
    | mk data body =>
        cases data with
        | none => rfl
        | some data =>
            obtain ⟨b₀, b₁, b₂, b₃, rfl⟩ := List.length_eq_four.mp (recvAll_some hread (by simp)).1
            rw [recvLen, hread] at h
            cases h
  simpa using recvAll_none hlength

/-- `clientLoop`: the messages that the callback is invoked with, until the loop ends. -/
def clientLoop (c : Cuts) (conn : Incoming) : List Bytes :=
  match _hlen : recvLen c conn with
  | (none, _) => []
  | (some msgLen, body) =>
      if msgLen.toNat = 0 ∨ maxMessage < msgLen.toNat then []
      else
        match _hbody : recvAll c msgLen.toNat [] body with
        | (none, _) => []
        | (some data, next) => data :: clientLoop c next
  termination_by conn.left.length
  decreasing_by
    obtain ⟨b₀, b₁, b₂, b₃, -, hfirst⟩ := recvLen_some _hlen
    have hsecond := congrArg List.length (recvAll_some _hbody (Nat.zero_le _)).2
    rw [List.nil_append, List.length_append] at hsecond
    rw [hfirst]
    simp only [List.length_cons]
    omega

/-! ### What a stream says -/

/-- The messages that are read from some bytes. -/
def messages : Nat → Bytes → List Bytes
  | 0, _ => []
  | fuel + 1, bytes =>
      match readMessage bytes with
      | .message data rest => data :: messages fuel rest
      | _ => []

def unread (bytes : Bytes) : List Bytes := messages bytes.length bytes

/-- `clientLoop` accepts a message of this length. -/
def Acceptable (length : Nat) : Prop := 0 < length ∧ length ≤ maxMessage

/-- The bytes are those of whole messages that will be accepted. -/
def Framed (bytes : Bytes) : Prop :=
  ∃ ms : List Bytes, (∀ m ∈ ms, Acceptable m.length) ∧ bytes = ms.flatMap send

theorem length_of_readMessage {stream data rest : Bytes}
    (h : readMessage stream = .message data rest) : rest.length < stream.length := by
  rw [readMessage.eq_def] at h
  split at h
  · dsimp only at h
    split at h
    · cases h
    · split at h
      · cases h
      · cases h
        simp only [List.length_drop, List.length_cons]
        omega
  · cases h

/-- What is read does not depend on the bound on the rounds. -/
theorem messages_of_le {n m : Nat} {bytes : Bytes} (hn : bytes.length ≤ n)
    (hm : bytes.length ≤ m) : messages n bytes = messages m bytes := by
  induction n generalizing bytes m with
  | zero =>
      rw [List.eq_nil_of_length_eq_zero (Nat.le_zero.mp hn)]
      cases m <;> rfl
  | succ n ih =>
      cases m with
      | zero =>
          rw [List.eq_nil_of_length_eq_zero (Nat.le_zero.mp hm)]
          rfl
      | succ m =>
          rw [messages, messages]
          cases hread : readMessage bytes with
          | waiting => rfl
          | broken => rfl
          | message data rest =>
              have hlt := length_of_readMessage hread
              exact congrArg (data :: ·) (ih (by omega) (by omega))

theorem unread_eq_succ (bytes : Bytes) : unread bytes = messages (bytes.length + 1) bytes :=
  messages_of_le (Nat.le_refl _) (Nat.le_succ _)

theorem unread_message {bytes data rest : Bytes} (h : readMessage bytes = .message data rest) :
    unread bytes = data :: unread rest := by
  have hlt := length_of_readMessage h
  rw [unread_eq_succ, messages, h]
  exact congrArg (data :: ·) (messages_of_le (Nat.le_of_lt hlt) (Nat.le_refl _))

theorem unread_end {bytes : Bytes} (h : ∀ data rest, readMessage bytes ≠ .message data rest) :
    unread bytes = [] := by
  rw [unread_eq_succ, messages]
  cases hread : readMessage bytes with
  | waiting => rfl
  | broken => rfl
  | message data rest => exact absurd hread (h data rest)

theorem readMessage_of_short {stream : Bytes} (h : stream.length < 4) :
    readMessage stream = .waiting := by
  rw [readMessage.eq_def]
  split
  · simp only [List.length_cons] at h
    omega
  · rfl

section Rounds

variable {c : Cuts} {conn body next : Incoming} {len : UInt32} {data : Bytes}

theorem clientLoop_of_no_length (h : recvLen c conn = (none, body)) : clientLoop c conn = [] := by
  rw [clientLoop]
  split
  · rfl
  · rename_i hlen
    rw [h] at hlen
    cases hlen

theorem clientLoop_of_bad_length (h : recvLen c conn = (some len, body))
    (hbad : len.toNat = 0 ∨ maxMessage < len.toNat) : clientLoop c conn = [] := by
  rw [clientLoop]
  split
  · rfl
  · rename_i hlen
    rw [h] at hlen
    cases hlen
    rw [if_pos hbad]

theorem clientLoop_of_no_body (h : recvLen c conn = (some len, body))
    (hbody : recvAll c len.toNat [] body = (none, next)) : clientLoop c conn = [] := by
  rw [clientLoop]
  split
  · rfl
  · rename_i hlen
    rw [h] at hlen
    cases hlen
    split
    · rfl
    · split
      · rfl
      · rename_i hread
        rw [hbody] at hread
        cases hread

theorem clientLoop_of_message (h : recvLen c conn = (some len, body))
    (hgood : ¬(len.toNat = 0 ∨ maxMessage < len.toNat))
    (hbody : recvAll c len.toNat [] body = (some data, next)) :
    clientLoop c conn = data :: clientLoop c next := by
  rw [clientLoop]
  split
  · rename_i hlen
    rw [h] at hlen
    cases hlen
  · rename_i hlen
    rw [h] at hlen
    cases hlen
    rw [if_neg hgood]
    split
    · rename_i hread
      rw [hbody] at hread
      cases hread
    · rename_i hread
      rw [hbody] at hread
      cases hread
      rfl

end Rounds

/-- The loop delivers what the stream says, however it is cut. -/
theorem clientLoop_eq (c : Cuts) (conn : Incoming) : clientLoop c conn = unread conn.left := by
  induction conn using clientLoop.induct c with
  | case1 conn body hlen =>
      have hshort : conn.left.length < 4 := recvLen_none (congrArg Prod.fst hlen)
      rw [clientLoop_of_no_length hlen, unread_end]
      intro data rest hread
      rw [readMessage_of_short hshort] at hread
      cases hread
  | case2 conn len body hlen hbad =>
      obtain ⟨b₀, b₁, b₂, b₃, rfl, hleft⟩ := recvLen_some hlen
      rw [clientLoop_of_bad_length hlen hbad, unread_end]
      intro data rest hread
      rw [hleft, readMessage, if_pos hbad] at hread
      cases hread
  | case3 conn len body hlen hgood next hbody =>
      obtain ⟨b₀, b₁, b₂, b₃, rfl, hleft⟩ := recvLen_some hlen
      have hshort := recvAll_none (congrArg Prod.fst hbody)
      rw [List.length_nil, Nat.zero_add] at hshort
      rw [clientLoop_of_no_body hlen hbody, unread_end]
      intro data rest hread
      rw [hleft, readMessage, if_neg hgood, if_pos hshort] at hread
      cases hread
  | case4 conn len body hlen hgood data next hbody ih =>
      obtain ⟨b₀, b₁, b₂, b₃, rfl, hleft⟩ := recvLen_some hlen
      obtain ⟨hlength, happend⟩ := recvAll_some hbody (Nat.zero_le _)
      rw [List.nil_append] at happend
      have henough : ¬body.left.length < (decodeLen b₀ b₁ b₂ b₃).toNat := by
        rw [happend, List.length_append]
        omega
      have hread : readMessage conn.left = .message data next.left := by
        rw [hleft, readMessage, if_neg hgood, if_neg henough, happend, ← hlength, List.take_left,
          List.drop_left]
      rw [clientLoop_of_message hlen hgood hbody, unread_message hread, ih]

/-! ### Frames on a stream -/

theorem Acceptable.lt {length : Nat} (h : Acceptable length) : length < 2 ^ 32 :=
  Nat.lt_of_le_of_lt h.2 (by decide)

theorem readMessage_acceptable {m : Bytes} (h : Acceptable m.length) (rest : Bytes) :
    readMessage (send m ++ rest) = .message m rest := by
  have hreject : ¬ (m.length = 0 ∨ maxMessage < m.length) := by
    have := h.1
    have := h.2
    omega
  rw [readMessage_send h.lt, if_neg hreject]

theorem unread_send {m : Bytes} (h : Acceptable m.length) (rest : Bytes) :
    unread (send m ++ rest) = m :: unread rest :=
  unread_message (readMessage_acceptable h rest)

theorem unread_flatMap {ms : List Bytes} (h : ∀ m ∈ ms, Acceptable m.length) :
    unread (ms.flatMap send) = ms := by
  induction ms with
  | nil => rfl
  | cons m ms ih =>
      obtain ⟨hfirst, hrest⟩ := List.forall_mem_cons.mp h
      rw [List.flatMap_cons, unread_send hfirst, ih hrest]

theorem framed_append {bytes m : Bytes} (h : Framed bytes) (hm : Acceptable m.length) :
    Framed (bytes ++ send m) ∧ unread (bytes ++ send m) = unread bytes ++ [m] := by
  obtain ⟨ms, hall, rfl⟩ := h
  have hall' : ∀ x ∈ ms ++ [m], Acceptable x.length := by
    intro x hx
    obtain hx | hx := List.mem_append.mp hx
    · exact hall x hx
    · rw [List.mem_singleton.mp hx]
      exact hm
  have hbytes : ms.flatMap send ++ send m = (ms ++ [m]).flatMap send := by
    rw [List.flatMap_append, List.flatMap_singleton]
  rw [hbytes]
  exact ⟨⟨_, hall', rfl⟩, by rw [unread_flatMap hall', unread_flatMap hall]⟩

/-- One round reads the first message, or there is none. -/
theorem framed_round {bytes : Bytes} (h : Framed bytes) :
    (bytes = [] ∧ readMessage bytes = .waiting) ∨
      ∃ data rest, readMessage bytes = .message data rest ∧ Framed rest ∧
        unread bytes = data :: unread rest := by
  obtain ⟨ms, hall, rfl⟩ := h
  cases ms with
  | nil => exact Or.inl ⟨rfl, rfl⟩
  | cons m ms =>
      obtain ⟨hfirst, hrest⟩ := List.forall_mem_cons.mp hall
      refine Or.inr ⟨m, ms.flatMap send, ?_, ⟨ms, hrest, rfl⟩, ?_⟩
      · rw [List.flatMap_cons, readMessage_acceptable hfirst]
      · rw [unread_flatMap hall, unread_flatMap hrest]

/-- A frame that is not there in full says nothing. -/
theorem unread_part {data part left : Bytes} (h : Acceptable data.length)
    (hpart : send data = part ++ left) (hleft : left ≠ []) : unread part = [] := by
  refine unread_end fun data' rest hread => ?_
  have hpos := List.length_pos_of_ne_nil hleft
  have hlen : (UInt32.ofNat data.length).toNat = data.length :=
    UInt32.toNat_ofNat_of_lt' h.lt
  obtain hshort | hlong := Nat.lt_or_ge part.length 4
  · rw [readMessage_of_short hshort] at hread
    cases hread
  · -- The prefix is there, and with it the length.
    have hsplit : part = encodeLen (UInt32.ofNat data.length) ++ part.drop 4 := by
      have htake := congrArg (List.take 4) hpart
      rw [List.take_append_of_le_length hlong, send,
        List.take_append_of_le_length (Nat.le_refl 4)] at htake
      exact ((congrArg (· ++ part.drop 4) htake).trans (List.take_append_drop 4 part)).symm
    have hlength := congrArg List.length hpart
    rw [hsplit] at hlength
    rw [hsplit] at hread
    simp only [send, encodeLen, List.length_append, List.length_cons, List.length_nil]
      at hlength
    simp only [encodeLen, List.cons_append, List.nil_append, readMessage, decodeLen_encodeLen,
      hlen] at hread
    split at hread
    · cases hread
    · rw [if_pos (by omega)] at hread
      cases hread

/-- The messages whose frames end before a position. -/
def complete : Nat → List Bytes → List Bytes
  | _, [] => []
  | cut, data :: rest =>
      if (send data).length ≤ cut then data :: complete (cut - (send data).length) rest else []

/-- A stream that is cut off says what was complete. -/
theorem unread_take {datas : List Bytes} (h : ∀ data ∈ datas, Acceptable data.length)
    (cut : Nat) : unread ((datas.flatMap send).take cut) = complete cut datas := by
  induction datas generalizing cut with
  | nil =>
      rw [List.flatMap_nil, List.take_nil]
      rfl
  | cons data rest ih =>
      obtain ⟨hdata, hrest⟩ := List.forall_mem_cons.mp h
      rw [List.flatMap_cons, complete]
      split
      · rename_i hle
        rw [List.take_append, List.take_of_length_le hle, unread_send hdata, ih hrest]
      · rename_i hgt
        rw [List.take_append_of_le_length (by omega)]
        refine unread_part hdata (List.take_append_drop cut (send data)).symm ?_
        rw [Ne, List.drop_eq_nil_iff]
        exact hgt

/-! ### Sending -/

/-- What came of the writes of a call: the result, the bytes that were accepted, and the system
calls that were not needed. -/
structure Sent where
  ok : Bool
  accepted : Bytes
  outcomes : List Nat

/-- `sendAll`. Each system call accepts at most the next number of bytes; zero stands for an
error, and so does the end of the list. -/
def sendAll : List Nat → Bytes → Sent
  | [], data => ⟨decide (data = []), [], []⟩
  | n :: outcomes, data =>
      if data = [] then ⟨true, [], n :: outcomes⟩
      else
        let taken := min n (intOfSize data.length).toNat
        if taken = 0 then ⟨false, [], outcomes⟩
        else
          let rest := sendAll outcomes (data.drop taken)
          { rest with accepted := data.take taken ++ rest.accepted }

/-- Go on unless the writes so far have failed. -/
def Sent.andThen (first : Sent) (next : List Nat → Sent) : Sent :=
  if first.ok = true then
    { next first.outcomes with accepted := first.accepted ++ (next first.outcomes).accepted }
  else first

/-- The loop of `sendv` over the slices; empty ones are skipped. -/
def sendSlices : List Bytes → List Nat → Sent
  | [], outcomes => ⟨true, [], outcomes⟩
  | part :: rest, outcomes =>
      if part = [] then sendSlices rest outcomes
      else (sendAll outcomes part).andThen (sendSlices rest)

/-- The writes of `send` and of `sendv` to a connection. -/
def writeFrame (outcomes : List Nat) : Outgoing → Sent
  | .buffer data =>
      (sendAll outcomes (encodeLen (UInt32.ofNat data.length))).andThen (sendAll · data)
  | .slices parts =>
      let total := (parts.map List.length).sum
      (sendAll outcomes (encodeLen (UInt32.ofNat total))).andThen (sendSlices parts)

/-- The writes were those of some bytes: all of them on success, and fewer on failure. -/
def Sent.Writes (s : Sent) (data : Bytes) : Prop :=
  ∃ left, data = s.accepted ++ left ∧ (s.ok = true ↔ left = [])

theorem sendAll_writes (outcomes : List Nat) (data : Bytes) :
    (sendAll outcomes data).Writes data := by
  induction outcomes generalizing data with
  | nil => exact ⟨data, rfl, decide_eq_true_iff⟩
  | cons n outcomes ih =>
      rw [sendAll]
      split
      · rename_i hnil
        exact ⟨[], by rw [hnil]; rfl, by simp⟩
      · rename_i hne
        dsimp only
        split
        · exact ⟨data, rfl, by simp [hne]⟩
        · obtain ⟨left, hdata, hok⟩ := ih (data.drop (min n (intOfSize data.length).toNat))
          refine ⟨left, ?_, hok⟩
          rw [List.append_assoc, ← hdata, List.take_append_drop]

theorem Sent.Writes.andThen {first : Sent} {next : List Nat → Sent} {data more : Bytes}
    (hfirst : first.Writes data) (hnext : ∀ outcomes, (next outcomes).Writes more) :
    (first.andThen next).Writes (data ++ more) := by
  obtain ⟨left, rfl, hok⟩ := hfirst
  rw [Sent.andThen]
  split
  · rename_i htrue
    obtain ⟨left', rfl, hok'⟩ := hnext first.outcomes
    refine ⟨left', ?_, hok'⟩
    rw [hok.mp htrue, List.append_nil, List.append_assoc]
  · rename_i hfalse
    refine ⟨left ++ more, List.append_assoc _ _ _, ?_⟩
    have hleft : left ≠ [] := mt hok.mpr hfalse
    simp [hfalse, hleft]

theorem sendSlices_writes (parts : List Bytes) (outcomes : List Nat) :
    (sendSlices parts outcomes).Writes parts.flatten := by
  induction parts generalizing outcomes with
  | nil => exact ⟨[], rfl, by simp [sendSlices]⟩
  | cons part rest ih =>
      rw [sendSlices, List.flatten_cons]
      split
      · rename_i hnil
        rw [hnil]
        exact ih outcomes
      · exact (sendAll_writes outcomes part).andThen ih

/-- The frame of a message is written, or a part of it. -/
theorem writeFrame_writes (outcomes : List Nat) (m : Outgoing) :
    (writeFrame outcomes m).Writes (send m.bytes) := by
  cases m with
  | buffer data => exact (sendAll_writes outcomes _).andThen fun o => sendAll_writes o data
  | slices parts =>
      have htotal : (parts.map List.length).sum = parts.flatten.length :=
        List.length_flatten.symm
      rw [writeFrame, htotal]
      exact (sendAll_writes outcomes _).andThen (sendSlices_writes parts)

theorem accepted_of_ok {outcomes : List Nat} {m : Outgoing}
    (h : (writeFrame outcomes m).ok = true) : (writeFrame outcomes m).accepted = send m.bytes := by
  obtain ⟨left, hframe, hok⟩ := writeFrame_writes outcomes m
  rw [hframe, hok.mp h, List.append_nil]

/-- A message, and what the system calls accept of its frame. -/
structure Write where
  message : Outgoing
  outcomes : List Nat

def Write.sent (w : Write) : Sent := writeFrame w.outcomes w.message

/-- The stream of a connection. -/
def stream (writes : List Write) : Bytes := (writes.map fun w => w.sent.accepted).flatten

/-- However the sender's writes and the receiver's reads are cut, the callback is invoked with the
messages that were written, up to where the stream ends. -/
theorem clientLoop_stream {writes : List Write} (hok : ∀ w ∈ writes, w.sent.ok = true)
    (hsize : ∀ w ∈ writes, 1 ≤ w.message.bytes.length ∧ w.message.bytes.length ≤ maxMessage)
    (c : Cuts) :
    clientLoop c { left := stream writes } = writes.map (·.message.bytes) ∧
      ∀ cut, clientLoop c { left := (stream writes).take cut } =
        complete cut (writes.map (·.message.bytes)) := by
  have hstream : stream writes = (writes.map (·.message.bytes)).flatMap send := by
    rw [stream, List.flatMap_def, List.map_map]
    exact congrArg List.flatten (List.map_congr_left fun w hw => accepted_of_ok (hok w hw))
  have hacceptable : ∀ data ∈ writes.map (·.message.bytes), Acceptable data.length := by
    intro data hdata
    obtain ⟨w, hw, rfl⟩ := List.mem_map.mp hdata
    exact hsize w hw
  refine ⟨?_, fun cut => ?_⟩
  · rw [clientLoop_eq, hstream]
    exact unread_flatMap hacceptable
  · rw [clientLoop_eq, hstream]
    exact unread_take hacceptable cut

/-- Reads of one byte each. -/
def Cuts.single : Cuts := ⟨fun _ requested => min 1 requested, by omega, by omega⟩

/-- A message in one buffer and one in two slices, with several system calls each. -/
def twoWrites : List Write :=
  [⟨.buffer [7], [1, 3, 1]⟩, ⟨.slices [[8], [9]], [4, 1, 1]⟩]

theorem clientLoop_stream_two :
    clientLoop Cuts.single { left := stream twoWrites } = [[7], [8, 9]] ∧
      ∀ cut, clientLoop Cuts.single { left := (stream twoWrites).take cut } =
        complete cut [[7], [8, 9]] :=
  @clientLoop_stream twoWrites (by decide) (by decide) Cuts.single

end TcpTransport

end EmbedMq
