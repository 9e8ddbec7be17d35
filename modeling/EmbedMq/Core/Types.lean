import Mathlib.Data.List.Basic

/-!
# Message types, QoS profiles and endpoints

The data types shared by every component, following `types.h`, `qos.h` and
`itransport.h`. Strings and payloads are byte lists: a `std::string` is a byte
string, and the small-buffer optimization of `Payload` is not observable.

`MessageType` and `QoSLevel` are scoped enumerations over `uint8_t`. A cast from
a received byte can produce a value without an enumerator, and such a value is
passed on and compared like any other, so each type has one more constructor for
the remaining codes.
-/

namespace EmbedMq

/-- A byte string: a topic, a payload or an encoded frame. -/
abbrev Bytes := List UInt8

/-- The bytes of an ASCII literal of the source. -/
def ascii (text : List Char) : Bytes := text.map fun c => UInt8.ofNat c.toNat

namespace MessageType

/-- The codes that have an enumerator in `types.h`. -/
def enumerators : List UInt8 :=
  [0x01, 0x02, 0x03, 0x04, 0x05, 0x10, 0x11, 0x12, 0x13, 0x14,
    0x20, 0x21, 0x22, 0x23, 0x24, 0x30, 0x31]

end MessageType

inductive MessageType where
  | publish
  | subscribe
  | unsubscribe
  | request
  | reply
  | ack
  | nack
  | pubrec
  | pubrel
  | pubcomp
  | announce
  | discoverReq
  | discoverRsp
  | heartbeat
  | farewell
  | ping
  | pong
  | unnamed (code : UInt8) (fresh : code ∉ MessageType.enumerators)
  deriving DecidableEq

namespace MessageType

/-- `static_cast<uint8_t>(type)`. -/
def toByte : MessageType → UInt8
  | publish => 0x01
  | subscribe => 0x02
  | unsubscribe => 0x03
  | request => 0x04
  | reply => 0x05
  | ack => 0x10
  | nack => 0x11
  | pubrec => 0x12
  | pubrel => 0x13
  | pubcomp => 0x14
  | announce => 0x20
  | discoverReq => 0x21
  | discoverRsp => 0x22
  | heartbeat => 0x23
  | farewell => 0x24
  | ping => 0x30
  | pong => 0x31
  | unnamed code _ => code

/-- The enumerator with a given code. -/
private def enumerator (b : UInt8) : MessageType :=
  if b = 0x01 then publish
  else if b = 0x02 then subscribe
  else if b = 0x03 then unsubscribe
  else if b = 0x04 then request
  else if b = 0x05 then reply
  else if b = 0x10 then ack
  else if b = 0x11 then nack
  else if b = 0x12 then pubrec
  else if b = 0x13 then pubrel
  else if b = 0x14 then pubcomp
  else if b = 0x20 then announce
  else if b = 0x21 then discoverReq
  else if b = 0x22 then discoverRsp
  else if b = 0x23 then heartbeat
  else if b = 0x24 then farewell
  else if b = 0x30 then ping
  else pong

/-- `static_cast<MessageType>(byte)`. -/
def ofByte (b : UInt8) : MessageType :=
  if h : b ∈ enumerators then enumerator b else unnamed b h

@[simp] theorem toByte_ofByte (b : UInt8) : (ofByte b).toByte = b := by
  by_cases h : b ∈ enumerators
  · rw [ofByte, dif_pos h]
    simp only [enumerators, List.mem_cons, List.not_mem_nil, or_false] at h
    rcases h with rfl | rfl | rfl | rfl | rfl | rfl | rfl | rfl | rfl | rfl | rfl | rfl | rfl |
      rfl | rfl | rfl | rfl <;> rfl
  · rw [ofByte, dif_neg h]
    rfl

@[simp] theorem ofByte_toByte (t : MessageType) : ofByte t.toByte = t := by
  cases t with
  | unnamed code fresh => exact dif_neg fresh
  | _ => rfl

end MessageType

inductive QoSLevel where
  | bestEffort
  | reliable
  | exactlyOnce
  | unnamed (code : UInt8) (fresh : 3 ≤ code)
  deriving DecidableEq

namespace QoSLevel

/-- `static_cast<uint8_t>(level)`. -/
def toByte : QoSLevel → UInt8
  | bestEffort => 0
  | reliable => 1
  | exactlyOnce => 2
  | unnamed code _ => code

/-- `static_cast<QoSLevel>(byte)`. -/
def ofByte (b : UInt8) : QoSLevel :=
  if h : 3 ≤ b then unnamed b h
  else if b = 0 then bestEffort
  else if b = 1 then reliable
  else exactlyOnce

@[simp] theorem toByte_ofByte (b : UInt8) : (ofByte b).toByte = b := by
  by_cases h : 3 ≤ b
  · rw [ofByte, dif_pos h]
    rfl
  · rw [ofByte, dif_neg h]
    by_cases h0 : b = 0
    · simp [h0, toByte]
    · by_cases h1 : b = 1
      · simp [h1, toByte]
      · rw [if_neg h0, if_neg h1]
        have hb : b = 2 := by
          rw [UInt8.le_iff_toNat_le] at h
          rw [← UInt8.toNat_inj] at h0 h1 ⊢
          simp only [UInt8.reduceToNat] at h h0 h1 ⊢
          omega
        exact hb.symm

@[simp] theorem ofByte_toByte (level : QoSLevel) : ofByte level.toByte = level := by
  cases level with
  | unnamed code fresh => exact dif_pos fresh
  | _ => rfl

/-- Scoped enumerations compare by their underlying value. -/
instance : LE QoSLevel := ⟨fun a b => a.toByte ≤ b.toByte⟩

instance (a b : QoSLevel) : Decidable (a ≤ b) :=
  inferInstanceAs (Decidable (a.toByte ≤ b.toByte))

end QoSLevel

inductive DurabilityKind where
  | volatile
  | transientLocal
  deriving DecidableEq

/-- The fields of `QoSProfile` that the library reads, with their defaults. -/
structure QoSProfile where
  level : QoSLevel := .bestEffort
  maxRetries : UInt32 := 3
  retryIntervalMs : UInt32 := 100
  ackTimeoutMs : UInt32 := 500
  durability : DurabilityKind := .volatile
  lifespanMs : UInt32 := 0
  retain : Bool := false
  deriving DecidableEq

namespace QoSProfile

def reliable : QoSProfile := { level := .reliable }

def exactlyOnce : QoSProfile := { level := .exactlyOnce }

end QoSProfile

namespace MsgFlags

def retain : UInt8 := 0x01

end MsgFlags

structure Endpoint where
  address : Bytes
  port : UInt16 := 0
  transportType : Bytes
  deriving DecidableEq

/-- What a subscriber callback or a service handler is given. -/
structure ReceivedMessage where
  topic : Bytes
  payload : Bytes
  timestamp : UInt64 := 0
  sourceId : UInt16 := 0
  sequenceId : UInt32 := 0
  correlationId : UInt32 := 0
  deriving DecidableEq

end EmbedMq
