import Shepoo.Foundation.ByteSource
import Shepoo.Foundation.MaskedFrame
import Shepoo.Server.Packet

/-! Calls of the TLS library and the sending side of a connection. Lengths pass
through the `int` parameter of `SSL_read` and `SSL_write`. -/
namespace Shepoo.Server
open Foundation ByteCodec ByteSource MaskedFrame

def intCount (n : UInt64) : Int := n.toUInt32.toInt32.toInt

theorem intCount_eq (n : UInt64) :
    intCount n = if n.toNat%2^32 < 2^31 then (n.toNat%2^32 : Int) else n.toNat%2^32 - 2^32 := by
  have hb : intCount n = n.toUInt32.toBitVec.toInt := rfl
  have ht : n.toUInt32.toBitVec.toNat = n.toNat%2^32 := UInt64.toNat_toUInt32 n
  rw [hb,BitVec.toInt_eq_toNat_cond,ht]
  split
  · rw [if_pos (by omega)]; norm_cast
  · rw [if_neg (by omega)]; norm_cast

theorem intCount_small {n : UInt64} (h : n.toNat < 2^31) : intCount n = n.toNat := by
  rw [intCount_eq,if_pos (by omega)]
  omega

theorem intCount_ofNat {n : Nat} (h : n < 2^31) : intCount (UInt64.ofNat n) = n := by
  have hv : (UInt64.ofNat n).toNat = n := UInt64.toNat_ofNat_of_lt' (show n < 2^64 by omega)
  rw [intCount_small (hv.trans_lt h),hv]

/-- On a connection whose client has sent all it sends and closed, so that no read waits for
more; on one that is still open `SSL_read` would, also for a count of zero. -/
def sslRead {σ : Type} [Source σ] (num : Int) (buffer : List UInt8) (ssl : σ) : List UInt8 × σ :=
  if num ≤ 0 then (buffer,ssl)
  else
    let (bytes,ssl) := Source.read num.toNat ssl
    (fill buffer bytes,ssl)

theorem sslRead_pos {σ : Type} [Source σ] {n : Nat} (h : 0 < n) (buffer : List UInt8) (ssl : σ) :
    sslRead n buffer ssl = (fill buffer (Source.read n ssl).1,(Source.read n ssl).2) := by
  have hpos : ¬ (n : Int) ≤ 0 := by omega
  rw [sslRead,if_neg hpos,Int.toNat_natCast]

/-- Whatever a read delivers goes to the front of the buffer. -/
theorem sslRead_eq_fill {σ : Type} [Source σ] (n : Nat) (buffer : List UInt8) (ssl : σ) :
    (sslRead n buffer ssl).1 = fill buffer (Source.read n ssl).1 := by
  cases n with
  | zero =>
    have hnone := List.length_eq_zero_iff.mp (Nat.le_zero.mp (Source.read_length 0 ssl))
    rw [hnone]
    rfl
  | succ n => rw [sslRead_pos n.succ_pos]

/-- The bytes put on the connection; `none` when the call reads memory past the data
or through a null pointer. -/
def sslWrite (num : Int) (data : Option (List UInt8)) : Option (List UInt8) :=
  if num ≤ 0 then some []
  else
    match data with
    | none => none
    | some bytes => if num.toNat ≤ bytes.length then some (bytes.take num.toNat) else none

/-- Where the stream has all the bytes asked for, they replace as much of the buffer
and leave the rest of it alone. -/
theorem sslRead_wire_prefix {n : Nat} {old bytes : List UInt8} (ho : old.length = n)
    (hl : bytes.length = n) (tail rest : List UInt8) :
    sslRead n (old ++ tail) (⟨bytes ++ rest⟩ : Wire) = (bytes ++ tail,⟨rest⟩) := by
  cases n with
  | zero =>
    rw [List.length_eq_zero_iff] at ho hl
    subst ho hl
    rfl
  | succ n =>
    rw [sslRead_pos n.succ_pos,wire_read]
    simp only [List.take_left' hl,List.drop_left' hl,fill]
    rw [List.drop_left' (by rw [ho,hl])]

theorem sslRead_wire {n : Nat} {buffer bytes : List UInt8} (hb : buffer.length = n)
    (hl : bytes.length = n) (rest : List UInt8) :
    sslRead n buffer (⟨bytes ++ rest⟩ : Wire) = (bytes,⟨rest⟩) := by
  simpa using sslRead_wire_prefix hb hl [] rest

/-- The bit-field of the source, in the layout gcc gives it: each byte from its low
bits up. -/
structure WebSocketFrameHeader where
  opcode : BitVec 4
  rsvd : BitVec 3
  fin : Bool
  payloadLen : BitVec 7
  maskFlag : Bool
  deriving DecidableEq, Repr

namespace WebSocketFrameHeader

def bytes (header : WebSocketFrameHeader) : List UInt8 :=
  [UInt8.ofNat (header.opcode.toNat + 16*header.rsvd.toNat + 128*header.fin.toNat),
    UInt8.ofNat (header.payloadLen.toNat + 128*header.maskFlag.toNat)]

def ofBytes (memory : List UInt8) : WebSocketFrameHeader :=
  let b0 := (memory.getD 0 0).toNat
  let b1 := (memory.getD 1 0).toNat
  ⟨BitVec.ofNat 4 b0,BitVec.ofNat 3 (b0/16),decide (128 ≤ b0),BitVec.ofNat 7 b1,
    decide (128 ≤ b1)⟩

end WebSocketFrameHeader

structure Transmission where
  written : List UInt8
  completed : Bool
  deriving DecidableEq, Repr

def frameBytes (packet : Packet) : List UInt8 :=
  let payloadLength : UInt64 := 10 + packet.payloadLength
  let payloadLen : BitVec 7 :=
    if payloadLength < 126 then BitVec.ofNat 7 payloadLength.toNat
    else if payloadLength < 65535 then 126
    else 127
  let header : WebSocketFrameHeader := ⟨0x02,0,true,payloadLen,false⟩
  let extended :=
    if header.payloadLen = 126 then le 2 payloadLength.toNat
    else if header.payloadLen = 127 then le 8 payloadLength.toNat
    else []
  header.bytes ++ extended

def sendPacket (webSocket : Bool) (packet : Packet) (payload : Option (List UInt8)) :
    Transmission :=
  let framing := if webSocket then frameBytes packet else []
  match sslWrite (intCount packet.payloadLength) payload with
  | none => ⟨framing ++ packet.bytes,false⟩
  | some data => ⟨framing ++ packet.bytes ++ data,true⟩

def sentForm (n : Nat) : LengthForm :=
  if n < 126 then .short else if n < 65535 then .medium else .long

theorem sentForm_admits {n : Nat} (h : n < 2^64) : (sentForm n).Admits n := by
  unfold sentForm
  split
  · assumption
  · split
    · next hm => exact Nat.lt_trans hm (by decide)
    · exact h

/-- A message as the data of one final, unmasked, binary frame. -/
def packetFrame (message : Message) : Frame := ⟨true,0,2,none,message.bytes⟩

/-- The header of a frame is that of its length form, extended length in host order. -/
theorem frameBytes_eq {packet : Packet} {n : Nat}
    (hn : (10 + packet.payloadLength).toNat = n) :
    frameBytes packet = flagByte true 0 2::lengthByte false ((sentForm n).code n)::
      (sentForm n).extended le n := by
  have h1 : (10 + packet.payloadLength < 126) ↔ n < 126 := by rw [UInt64.lt_iff_toNat_lt,hn]; rfl
  have h2 : (10 + packet.payloadLength < 65535) ↔ n < 65535 := by rw [UInt64.lt_iff_toNat_lt,hn]; rfl
  unfold frameBytes sentForm
  simp only [hn,h1,h2]
  by_cases hs : n < 126
  · have hv : (BitVec.ofNat 7 n).toNat = n := by
      rw [BitVec.toNat_ofNat]
      omega
    have ha : BitVec.ofNat 7 n ≠ 126 := fun h => by
      have := congrArg BitVec.toNat h
      rw [hv] at this
      exact absurd this (by show n ≠ 126; omega)
    have hb : BitVec.ofNat 7 n ≠ 127 := fun h => by
      have := congrArg BitVec.toNat h
      rw [hv] at this
      exact absurd this (by show n ≠ 127; omega)
    simp only [hs,if_true,if_neg ha,if_neg hb,WebSocketFrameHeader.bytes,hv]
    rfl
  · by_cases hm : n < 65535
    · simp only [hs,hm,if_true,if_false]
      rfl
    · simp only [hs,hm,if_false]
      rfl

theorem sslWrite_whole {n : UInt64} {data : List UInt8} (hl : data.length = n.toNat)
    (h : n.toNat < 2^31) : sslWrite (intCount n) (some data) = some data := by
  rw [intCount_small h,sslWrite]
  split
  · next hz =>
    have : data = [] := List.eq_nil_of_length_eq_zero (by omega)
    rw [this]
  · simp only [Int.toNat_natCast]
    rw [if_pos hl.ge,List.take_of_length_le hl.le]

/-- On a WebSocket a packet leaves as one frame, extended length in host order. -/
theorem sendPacket_webSocket (message : Message)
    (h : message.packet.payloadLength.toNat < 2^31) :
    sendPacket true message.packet (some message.payload) =
      ⟨(packetFrame message).encode le (sentForm message.bytes.length),true⟩ := by
  have hn : (10 + message.packet.payloadLength).toNat = message.bytes.length := by
    rw [Message.length_bytes,UInt64.toNat_add]
    exact Nat.mod_eq_of_lt (by change 10 + _ < _; omega)
  rw [sendPacket,sslWrite_whole message.exact h]
  simp only [if_true,frameBytes_eq hn]
  simp [Frame.encode,Frame.head,Frame.keyBytes,Frame.maskedData,packetFrame,Message.bytes]

theorem sendPacket_raw (message : Message) (h : message.packet.payloadLength.toNat < 2^31) :
    sendPacket false message.packet (some message.payload) = ⟨message.bytes,true⟩ := by
  rw [sendPacket,sslWrite_whole message.exact h]
  simp [Message.bytes]

end Shepoo.Server
