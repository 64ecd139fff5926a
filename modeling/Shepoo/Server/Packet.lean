import Shepoo.Foundation.ByteCodec

/-! The packed packet header, as its ten bytes lie in a little-endian host's memory. -/
namespace Shepoo.Server
open Foundation ByteCodec

structure Packet where
  version : UInt8
  command : UInt8
  payloadLength : UInt64
  deriving DecidableEq, Repr

namespace Packet

/-- `sizeof(Packet)` -/
def size : Nat := 10

def bytes (packet : Packet) : List UInt8 :=
  packet.version::packet.command::le 8 packet.payloadLength.toNat

/-- The header a `Packet*` to the given memory reads. -/
def ofBytes (memory : List UInt8) : Packet :=
  ⟨memory.getD 0 0,memory.getD 1 0,UInt64.ofNat (leValue ((memory.drop 2).take 8))⟩

@[simp] theorem length_bytes (packet : Packet) : packet.bytes.length = 10 := by
  simp [bytes]

/-- Whatever follows the header in memory is not read. -/
theorem ofBytes_bytes (packet : Packet) (rest : List UInt8) :
    ofBytes (packet.bytes ++ rest) = packet := by
  have ht : ((packet.bytes ++ rest).drop 2).take 8 = le 8 packet.payloadLength.toNat :=
    List.take_left' (length_le _ _)
  have hv : leValue (le 8 packet.payloadLength.toNat) = packet.payloadLength.toNat :=
    leValue_le_of_lt (packet.payloadLength.toNat_lt.trans_eq (by norm_num))
  unfold ofBytes
  rw [ht,hv,UInt64.ofNat_toNat]
  rfl

@[simp] theorem ofBytes_self (packet : Packet) : ofBytes packet.bytes = packet := by
  have h := ofBytes_bytes packet []
  rwa [List.append_nil] at h

theorem bytes_injective : Function.Injective bytes := Function.LeftInverse.injective ofBytes_self

/-- Ten bytes are the header they hold and nothing else. -/
theorem bytes_ofBytes {memory : List UInt8} (h : memory.length = 10) :
    (ofBytes memory).bytes = memory := by
  match memory,h with
  | v::c::rest,h =>
    have hr : rest.length = 8 := by simpa using h
    have hd : ((v::c::rest).drop 2).take 8 = rest := by
      simp [← hr]
    have hlt : leValue rest < 2^64 := by
      have := leValue_lt rest
      rw [hr] at this
      exact this.trans_eq (by norm_num)
    simp only [ofBytes,bytes,hd,List.getD_cons_zero,List.getD_cons_succ]
    rw [UInt64.toNat_ofNat',Nat.mod_eq_of_lt hlt,← hr,le_leValue]

end Packet

structure Message where
  packet : Packet
  payload : List UInt8
  exact : payload.length = packet.payloadLength.toNat
  deriving DecidableEq, Repr

def Message.bytes (message : Message) : List UInt8 := message.packet.bytes ++ message.payload

@[simp] theorem Message.length_bytes (message : Message) :
    message.bytes.length = 10 + message.packet.payloadLength.toNat := by
  simp [Message.bytes,message.exact]

/-- `MAX_PACKET_PAYLOAD_SIZE` -/
def maxPacketPayloadSize : UInt64 := 134217728

theorem max_small {packet : Packet} (h : packet.payloadLength ≤ maxPacketPayloadSize) :
    packet.payloadLength.toNat ≤ 134217728 :=
  UInt64.le_iff_toNat_le.mp h

end Shepoo.Server
