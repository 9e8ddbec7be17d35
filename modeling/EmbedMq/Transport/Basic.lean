import EmbedMq.Codec.RoundTrip

/-!
# The built-in transports

What `UdpTransport`, `TcpTransport` and `ShmTransport` put on the wire for a message,
and what their receive loops make of it. A message is handed over as one buffer
(`send`) or as a list of slices (`sendv`).

The operating system behaves as documented and loses nothing: a datagram of up to
65507 bytes arrives, and a receive returns the first bytes of it that fit the buffer;
a stream carries all bytes in order. The ring of a shared-memory inbox is its queue of
messages; how producers and the consumer share it is not looked at here.
-/

namespace EmbedMq

/-- A message as it is handed to a transport. -/
inductive Outgoing where
  | buffer (data : Bytes)
  | slices (parts : List Bytes)

/-- The bytes of the message. -/
def Outgoing.bytes : Outgoing → Bytes
  | buffer data => data
  | slices parts => parts.flatten

/-- `static_cast<int>(size)`. -/
def intOfSize (size : Nat) : Int :=
  let low : Nat := size % 2 ^ 32
  if low < 2 ^ 31 then low else low - 2 ^ 32

theorem intOfSize_eq {size : Nat} (h : size < 2 ^ 31) : intOfSize size = size := by
  have hlow : size % 2 ^ 32 = size := Nat.mod_eq_of_lt (Nat.lt_trans h (by decide))
  simp only [intOfSize, hlow, if_pos h]

namespace UdpTransport

/-- The largest payload of a datagram. -/
def maxDatagram : Nat := 65507

/-- `SocketApi::sendTo`: the result of the system call, and the datagram. -/
def sendTo (data : Bytes) (len : Int) : Int × Option Bytes :=
  if 0 ≤ len ∧ len ≤ maxDatagram then (len, some (data.take len.toNat)) else (-1, none)

def send (data : Bytes) : Bool × Option Bytes :=
  let (n, datagram) := sendTo data (intOfSize data.length)
  (decide (n = intOfSize data.length), datagram)

/-- `SocketApi::sendToV` gathers the slices into one datagram. -/
def sendToV (parts : List Bytes) : Int × Option Bytes :=
  let data := parts.flatten
  if data.length ≤ maxDatagram then (data.length, some data) else (-1, none)

def sendv (parts : List Bytes) : Bool × Option Bytes :=
  let total := (parts.map List.length).sum
  let (n, datagram) := sendToV parts
  (decide (n = intOfSize total), datagram)

def transmit : Outgoing → Bool × Option Bytes
  | .buffer data => send data
  | .slices parts => sendv parts

/-- What `processFd` hands to the callback. -/
def received (recvBufferSize : Nat) (datagram : Bytes) : Option Bytes :=
  let data := datagram.take recvBufferSize
  if data.isEmpty then none else some data

end UdpTransport

namespace TcpTransport

/-- The length of a message, most significant byte first. -/
def encodeLen (len : UInt32) : Bytes :=
  [(len >>> 24).toUInt8, (len >>> 16).toUInt8, (len >>> 8).toUInt8, len.toUInt8]

/-- What `send` writes to the connection. -/
def send (data : Bytes) : Bytes := encodeLen (UInt32.ofNat data.length) ++ data

/-- What `sendv` writes to the connection; empty slices are skipped. -/
def sendv (parts : List Bytes) : Bytes :=
  let total := (parts.map List.length).sum
  encodeLen (UInt32.ofNat total) ++ (parts.filter fun part => !part.isEmpty).flatten

def transmit : Outgoing → Bytes
  | .buffer data => send data
  | .slices parts => sendv parts

/-- The longest message that is received. -/
def maxMessage : Nat := 10 * 1024 * 1024

def decodeLen (b₀ b₁ b₂ b₃ : UInt8) : UInt32 :=
  b₀.toUInt32 <<< 24 ||| b₁.toUInt32 <<< 16 ||| b₂.toUInt32 <<< 8 ||| b₃.toUInt32

/-- What one round of `clientLoop` makes of the bytes that are there. -/
inductive Round where
  /-- It waits for more. -/
  | waiting
  /-- It leaves the loop, and the connection is closed. -/
  | broken
  | message (data rest : Bytes)
  deriving DecidableEq

/-- One round of `clientLoop`. -/
def readMessage : Bytes → Round
  | b₀ :: b₁ :: b₂ :: b₃ :: body =>
      let msgLen := (decodeLen b₀ b₁ b₂ b₃).toNat
      if msgLen = 0 ∨ maxMessage < msgLen then .broken
      else if body.length < msgLen then .waiting
      else .message (body.take msgLen) (body.drop msgLen)
  | _ => .waiting

end TcpTransport

namespace ShmTransport

/-- `sizeof(SlotHeader)`. -/
def slotHeader : Nat := 8

def defaultSlotSize : Nat := 4096

def defaultSlotCount : Nat := 256

/-- `writeToRegion` and `writevToRegion` on an inbox: refused if the message does not fit a
slot, or if no slot is free. -/
def write (slotSize slotCount : Nat) (data : Bytes) (inbox : List Bytes) : Bool × List Bytes :=
  if slotSize < data.length + slotHeader then (false, inbox)
  else if slotCount ≤ inbox.length then (false, inbox)
  else (true, inbox ++ [data])

/-- What `recvLoop` hands to the callback for a message. -/
def received (slotSize : Nat) (data : Bytes) : Option Bytes :=
  let len := if slotSize - slotHeader < data.length then 0 else data.length
  if 0 < len then some (data.take len) else none

end ShmTransport

/-! ### What arrives -/

namespace UdpTransport

/-- A buffer and its slices are sent alike. -/
theorem transmit_eq {out : Outgoing} (h : out.bytes.length < 2 ^ 31) :
    transmit out =
      if out.bytes.length ≤ maxDatagram then (true, some out.bytes) else (false, none) := by
  cases out with
  | buffer data =>
      change send data = if data.length ≤ maxDatagram then (true, some data) else (false, none)
      have hint : intOfSize data.length = data.length := intOfSize_eq h
      rw [send, hint]
      by_cases hfits : data.length ≤ maxDatagram
      · rw [sendTo, if_pos ⟨Int.natCast_nonneg _, Int.ofNat_le.mpr hfits⟩, if_pos hfits]
        simp only [decide_true, Int.toNat_natCast, List.take_length]
      · rw [sendTo, if_neg (fun hle => hfits (Int.ofNat_le.mp hle.2)), if_neg hfits]
        have hne : (-1 : Int) ≠ data.length := by omega
        simp only [decide_eq_false hne]
  | slices parts =>
      have htotal : (parts.map List.length).sum = parts.flatten.length :=
        List.length_flatten.symm
      change sendv parts =
        if parts.flatten.length ≤ maxDatagram then (true, some parts.flatten) else (false, none)
      have hint : intOfSize parts.flatten.length = parts.flatten.length := intOfSize_eq h
      rw [sendv, htotal, hint]
      by_cases hfits : parts.flatten.length ≤ maxDatagram
      · rw [sendToV, if_pos hfits, if_pos hfits]
        simp only [decide_true]
      · rw [sendToV, if_neg hfits, if_neg hfits]
        have hne : (-1 : Int) ≠ parts.flatten.length := by omega
        simp only [decide_eq_false hne]

end UdpTransport

namespace TcpTransport

theorem decodeLen_encodeLen (len : UInt32) :
    decodeLen (len >>> 24).toUInt8 (len >>> 16).toUInt8 (len >>> 8).toUInt8 len.toUInt8 = len := by
  have hswap : ∀ a b c d : UInt32, a ||| b ||| c ||| d = d ||| c ||| b ||| a := by
    intro a b c d
    ac_rfl
  apply UInt32.toNat_inj.mp
  rw [decodeLen, hswap, LittleEndian.word32_toNat]
  exact MessageCodec.value_bytes32 len

/-- A buffer and its slices are written alike. -/
theorem transmit_eq (out : Outgoing) : transmit out = send out.bytes := by
  cases out with
  | buffer data => rfl
  | slices parts =>
      have htotal : (parts.map List.length).sum = parts.flatten.length :=
        List.length_flatten.symm
      have hparts : (parts.filter fun part => !part.isEmpty).flatten = parts.flatten :=
        List.flatten_filter_not_isEmpty
      rw [transmit, sendv, htotal, hparts]
      rfl

/-- A message that has arrived in full is read, unless its length is not accepted. -/
theorem readMessage_send {data : Bytes} (hlt : data.length < 2 ^ 32) (rest : Bytes) :
    readMessage (send data ++ rest) =
      if data.length = 0 ∨ maxMessage < data.length then .broken else .message data rest := by
  have hlen : (UInt32.ofNat data.length).toNat = data.length := UInt32.toNat_ofNat_of_lt' hlt
  simp only [send, encodeLen, List.cons_append, List.nil_append, readMessage,
    decodeLen_encodeLen, hlen]
  split
  · rfl
  · have hroom : ¬ (data ++ rest).length < data.length := by
      rw [List.length_append]
      omega
    rw [if_neg hroom, List.take_left, List.drop_left]

end TcpTransport

namespace ShmTransport

/-- What fits a slot arrives. -/
theorem received_eq {slotSize : Nat} {data : Bytes} (hpos : 0 < data.length)
    (h : data.length + slotHeader ≤ slotSize) : received slotSize data = some data := by
  have hlen : ¬ slotSize - slotHeader < data.length := by omega
  rw [received, if_neg hlen]
  simp only [if_pos hpos, List.take_length]

end ShmTransport

end EmbedMq
