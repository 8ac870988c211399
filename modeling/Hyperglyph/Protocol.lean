import Hyperglyph.Library.Octets

/-! The wire protocol of `ahe_broker_protocol.h`: message layout, constants, and the octets
a message occupies on the socket. Both programs run on one little-endian host and send the
structure as it lies in memory. -/
namespace Hyperglyph

open Octets

/-- The octets of a literal. -/
def ascii (s : String) : List UInt8 := s.toList.map fun c => .ofNat c.toNat

/-- A C `int` holding a descriptor number, or a negative value for none. -/
abbrev Fd := Int

/-- Connections are identified by their `accept`, never by the descriptor number. -/
abbrev ConnId := Nat

def brokerProtocolMagic : UInt32 := 0x41484531
def brokerProtocolVersion : UInt32 := 1
def brokerCacheKeySize : Nat := 256
def brokerDescriptorCount : Nat := 2

/-- `sizeof(ahe_broker_message_v1)`. -/
def sizeofMessage : Nat := 296

def int64Max : Nat := 2 ^ 63 - 1
def sizeMax : Nat := 2 ^ 64 - 1

/-- `enum ahe_broker_message_type`. -/
inductive MessageType
  | acquire | ready | abort | detach | create | attach | decline | ack | error
  deriving DecidableEq, Repr

def MessageType.code : MessageType → UInt32
  | .acquire => 1
  | .ready => 2
  | .abort => 3
  | .detach => 4
  | .create => 101
  | .attach => 102
  | .decline => 103
  | .ack => 104
  | .error => 105

theorem MessageType.code_injective {a b : MessageType} (h : a.code = b.code) : a = b := by
  cases a <;> cases b <;> first | rfl | exact absurd h (by decide)

/-- `char cache_key[AHE_BROKER_CACHE_KEY_SIZE]`. -/
structure KeyBuffer where
  bytes : List UInt8
  size_eq : bytes.length = brokerCacheKeySize
  deriving DecidableEq

/-- The buffer after copying octets over its zeroed content. -/
def KeyBuffer.ofBytes (text : List UInt8) : KeyBuffer where
  bytes := (text ++ List.replicate brokerCacheKeySize 0).take brokerCacheKeySize
  size_eq := by
    rw [List.length_take, List.length_append, List.length_replicate]
    omega

def KeyBuffer.zero : KeyBuffer := .ofBytes []

theorem KeyBuffer.ofBytes_bytes (key : KeyBuffer) : KeyBuffer.ofBytes key.bytes = key := by
  cases key with
  | mk bytes size_eq =>
      simp only [KeyBuffer.ofBytes, KeyBuffer.mk.injEq]
      exact List.take_left' size_eq

theorem KeyBuffer.head_ofBytes (b : UInt8) (rest : List UInt8) :
    (KeyBuffer.ofBytes (b :: rest)).bytes.headD 0 = b := rfl

/-- A C string that leaves room for its terminator reads back from the buffer. -/
theorem KeyBuffer.cString_ofBytes {text : List UInt8} (hlen : text.length < brokerCacheKeySize)
    (hnul : (0 : UInt8) ∉ text) : cString (KeyBuffer.ofBytes text).bytes = text := by
  obtain ⟨room, hroom⟩ : ∃ room, brokerCacheKeySize = text.length + (room + 1) :=
    ⟨brokerCacheKeySize - text.length - 1, by omega⟩
  have hbytes : (KeyBuffer.ofBytes text).bytes =
      text ++ 0 :: (List.replicate (text.length + (room + 1)) (0 : UInt8)).tail.take room := by
    simp only [KeyBuffer.ofBytes, hroom]
    rw [List.take_append, List.take_of_length_le (by omega), Nat.add_sub_cancel_left,
      show text.length + (room + 1) = (text.length + room) + 1 by omega]
    simp [List.replicate_succ]
  rw [hbytes, cString_append_zero hnul]

theorem KeyBuffer.terminated_ofBytes {text : List UInt8}
    (hlen : text.length < brokerCacheKeySize) :
    terminated (KeyBuffer.ofBytes text).bytes = true := by
  have hmem : (0 : UInt8) ∈ (KeyBuffer.ofBytes text).bytes := by
    simp only [KeyBuffer.ofBytes, List.take_append, List.mem_append]
    refine .inr ?_
    rw [List.take_replicate, List.mem_replicate]
    exact ⟨by omega, rfl⟩
  simpa [terminated] using hmem

/-- `ahe_broker_message_v1`. -/
structure MessageV1 where
  magic : UInt32
  version : UInt32
  type : UInt32
  reserved : UInt32
  mappingSize : UInt64
  mappingBase : UInt64
  sharedGlobalsOffset : UInt64
  cacheKey : KeyBuffer
  deriving DecidableEq

/-- `ahe_broker_message_init`, written once in each program. -/
def brokerMessageInit (type : MessageType) : MessageV1 where
  magic := brokerProtocolMagic
  version := brokerProtocolVersion
  type := type.code
  reserved := 0
  mappingSize := 0
  mappingBase := 0
  sharedGlobalsOffset := 0
  cacheKey := .zero

@[simp] theorem brokerMessageInit_type (type : MessageType) :
    (brokerMessageInit type).type = type.code := rfl

/-- The magic and version test of both receivers. -/
def MessageV1.framed (m : MessageV1) : Bool :=
  m.magic == brokerProtocolMagic && m.version == brokerProtocolVersion

def MessageV1.encode (m : MessageV1) : List UInt8 :=
  ofNat 4 m.magic.toNat ++ (ofNat 4 m.version.toNat ++ (ofNat 4 m.type.toNat ++
    (ofNat 4 m.reserved.toNat ++ (ofNat 8 m.mappingSize.toNat ++ (ofNat 8 m.mappingBase.toNat ++
      (ofNat 8 m.sharedGlobalsOffset.toNat ++ m.cacheKey.bytes))))))

/-- The structure read out of a receive buffer. -/
def MessageV1.decode (buffer : List UInt8) : MessageV1 where
  magic := .ofNat (toNat (field buffer 0 4))
  version := .ofNat (toNat (field buffer 4 4))
  type := .ofNat (toNat (field buffer 8 4))
  reserved := .ofNat (toNat (field buffer 12 4))
  mappingSize := .ofNat (toNat (field buffer 16 8))
  mappingBase := .ofNat (toNat (field buffer 24 8))
  sharedGlobalsOffset := .ofNat (toNat (field buffer 32 8))
  cacheKey := .ofBytes (field buffer 40 brokerCacheKeySize)

@[simp] theorem MessageV1.length_encode (m : MessageV1) : m.encode.length = sizeofMessage := by
  simp [MessageV1.encode, m.cacheKey.size_eq, sizeofMessage, brokerCacheKeySize]

private theorem word_round_trip (w : UInt32) :
    UInt32.ofNat (toNat (ofNat 4 w.toNat)) = w := by
  rw [toNat_ofNat_of_lt (by simpa using w.toNat_lt), UInt32.ofNat_toNat]

private theorem long_round_trip (w : UInt64) :
    UInt64.ofNat (toNat (ofNat 8 w.toNat)) = w := by
  rw [toNat_ofNat_of_lt (by simpa using w.toNat_lt), UInt64.ofNat_toNat]

private theorem field_skip {before buffer : List UInt8} {offset width : Nat}
    (h : before.length ≤ offset) :
    field (before ++ buffer) offset width = field buffer (offset - before.length) width := by
  rw [field, field, List.drop_append, List.drop_eq_nil_of_le h, List.nil_append]

private theorem field_head {octets after : List UInt8} {width : Nat}
    (hwidth : octets.length = width) : field (octets ++ after) 0 width = octets := by
  rw [field, List.drop_zero, List.take_left' hwidth]

/-- What one program sends is what the other reads. -/
theorem MessageV1.decode_encode (m : MessageV1) : MessageV1.decode m.encode = m := by
  have hkey : field m.cacheKey.bytes 0 brokerCacheKeySize = m.cacheKey.bytes := by
    rw [field, List.drop_zero, List.take_of_length_le m.cacheKey.size_eq.le]
  cases m
  simp only [MessageV1.decode, MessageV1.encode, field_skip, field_head, length_ofNat,
    Nat.reduceLeDiff, Nat.reduceSub, Nat.le_refl, word_round_trip, long_round_trip, hkey,
    KeyBuffer.ofBytes_bytes]

end Hyperglyph
