import Shepoo.Server.SecNet
import Shepoo.Server.FrameRoundTrip

/-! Admission on the two transports. The constructor bounds the payload of a raw packet;
the frame decoder only asks for a frame that covers the packet. -/
namespace Shepoo.Server.Admission
open Foundation ByteCodec ByteSource MaskedFrame

/-- The dispatcher gets the message, whatever else the buffer holds. -/
def Dispatches (message : Message) (outcome : Outcome) : Prop :=
  ∃ payload, outcome = .emit message.packet payload ∧
    payload.take message.packet.payloadLength.toNat = message.payload

def SameEffect (message : Message) (raw framed : Outcome) : Prop :=
  (Dispatches message raw ∧ Dispatches message framed) ∨
  ((∃ reason, raw = .exit reason) ∧ ∃ reason, framed = .exit reason)

/-- A message in a single final binary frame; reserved bits and key are the client's. -/
def messageFrame (message : Message) (rsv : BitVec 3) (key : Option MaskingKey) : Frame :=
  ⟨true,rsv,2,key,message.bytes⟩

private theorem supported_raw {message : Message}
    (hv : message.packet.version = supportedVersion) : isGet message.packet.bytes = false := by
  have hlen := Packet.length_bytes message.packet
  rw [Bool.eq_false_iff,ne_eq,isGet_iff (by omega)]
  intro hget
  have h0 := congrArg List.head? hget
  simp only [Packet.bytes,List.take_succ_cons,List.head?_cons,hv] at h0
  exact absurd h0 (by decide)

section Raw
variable (digest : Digest) (memory : Memory) (fuel : Nat) {message : Message} (rest : List UInt8)

private theorem sslRead_packet : sslRead 10 (List.replicate 10 0)
    (⟨message.bytes ++ rest⟩ : Wire) = (message.packet.bytes,⟨message.payload ++ rest⟩) := by
  rw [Message.bytes,List.append_assoc]
  exact sslRead_wire (n := 10) List.length_replicate (Packet.length_bytes _) _

/-- On a raw connection a message within the limit is emitted as sent. -/
theorem raw_admitted (hv : message.packet.version = supportedVersion)
    (hm : message.packet.payloadLength ≤ maxPacketPayloadSize) :
    (SecNet.construct digest memory fuel (⟨message.bytes ++ rest⟩ : Wire)).outcome =
      .emit message.packet message.payload := by
  have hof := Packet.ofBytes_self message.packet
  have hp : sslRead (Packet.ofBytes message.packet.bytes).payloadLength.toNat
      (fresh memory.payload (Packet.ofBytes message.packet.bytes).payloadLength.toNat)
      (⟨message.payload ++ rest⟩ : Wire) = (message.payload,⟨rest⟩) := by
    rw [hof]
    exact sslRead_wire (length_fresh _ _) message.exact rest
  rw [SecNet.construct_raw (sslRead_packet rest) (supported_raw hv) (by rw [hof]; exact hm) hp,hof]

/-- Past the limit the process ends without looking at the payload. -/
theorem raw_refused (hv : message.packet.version = supportedVersion)
    (hm : maxPacketPayloadSize < message.packet.payloadLength) :
    (SecNet.construct digest memory fuel (⟨message.bytes ++ rest⟩ : Wire)).outcome =
      .exit (.payloadTooLarge message.packet.payloadLength) := by
  have hof := Packet.ofBytes_self message.packet
  rw [SecNet.construct_tooLarge (sslRead_packet rest) (supported_raw hv) (by rw [hof]; exact hm),
    hof]

end Raw

/-- The frame decoder brings the message to the dispatcher at every size it can read. -/
private theorem framed_dispatched (memory : Memory) {message : Message} (rsv : BitVec 3)
    (key : Option MaskingKey) {form : LengthForm} (hf : form.Admits message.bytes.length)
    (hs : message.packet.payloadLength.toNat + 11 < 2^31) (rest : List UInt8) :
    Dispatches message (handleWebSocketFrame memory
      (⟨(messageFrame message rsv key).encode le form ++ rest⟩ : Wire)).1 := by
  have hlen := message.length_bytes
  have hd : (messageFrame message rsv key).data = message.bytes := rfl
  have he := FrameRoundTrip.message_frame_emitted memory message hd rfl hf (by omega) rest
  exact ⟨message.payload ++ [0],congrArg Prod.fst he,List.take_left' message.exact⟩

/-- Raw and framed, a message has the same effect exactly when it is within the limit
that only the constructor checks. -/
theorem same_effect_iff (digest : Digest) (memory memory' : Memory) (fuel : Nat)
    (message : Message)
    (hv : message.packet.version = supportedVersion)
    (hs : message.packet.payloadLength.toNat + 11 < 2^31) (rsv : BitVec 3)
    (key : Option MaskingKey) (form : LengthForm) (hf : form.Admits message.bytes.length)
    (rest rest' : List UInt8) :
    SameEffect message
      (SecNet.construct digest memory fuel (⟨message.bytes ++ rest⟩ : Wire)).outcome
      (handleWebSocketFrame memory'
        (⟨(messageFrame message rsv key).encode le form ++ rest'⟩ : Wire)).1 ↔
      message.packet.payloadLength ≤ maxPacketPayloadSize := by
  have hframed := framed_dispatched memory' rsv key hf hs rest'
  constructor
  · intro h
    by_contra hm
    rw [raw_refused digest memory fuel rest hv (UInt64.not_le.mp hm)] at h
    rcases h with ⟨⟨_,hraw,_⟩,_⟩ | ⟨_,_,hexit⟩
    · cases hraw
    · obtain ⟨_,hemit,_⟩ := hframed
      rw [hemit] at hexit
      cases hexit
  · intro hm
    rw [raw_admitted digest memory fuel rest hv hm]
    exact .inl ⟨⟨message.payload,rfl,List.take_of_length_le message.exact.le⟩,hframed⟩

def largeMessage : Message where
  packet := ⟨1,6,134217729⟩
  payload := List.replicate 134217729 0
  exact := List.length_replicate

theorem large_same_effect_iff :
    SameEffect largeMessage
      (SecNet.construct noDigest FrameRoundTrip.someMemory 0
        (⟨largeMessage.bytes ++ []⟩ : Wire)).outcome
      (handleWebSocketFrame FrameRoundTrip.someMemory
        (⟨(messageFrame largeMessage 0 none).encode le .long ++ []⟩ : Wire)).1 ↔
      (134217729 : UInt64) ≤ maxPacketPayloadSize :=
  same_effect_iff noDigest FrameRoundTrip.someMemory FrameRoundTrip.someMemory 0 largeMessage rfl
    (by decide) 0 none .long (by rw [Message.length_bytes]; decide) [] []

theorem large_message_differs :
    ¬ SameEffect largeMessage
      (SecNet.construct noDigest FrameRoundTrip.someMemory 0
        (⟨largeMessage.bytes ++ []⟩ : Wire)).outcome
      (handleWebSocketFrame FrameRoundTrip.someMemory
        (⟨(messageFrame largeMessage 0 none).encode le .long ++ []⟩ : Wire)).1 := by
  have hf : LengthForm.long.Admits largeMessage.bytes.length := by
    rw [Message.length_bytes]
    decide
  obtain ⟨_,hemit,_⟩ := framed_dispatched FrameRoundTrip.someMemory 0 none hf (by decide) []
  rw [raw_refused noDigest FrameRoundTrip.someMemory 0 [] rfl (by decide),hemit]
  rintro (⟨⟨_,hraw,_⟩,_⟩ | ⟨_,_,hexit⟩)
  · cases hraw
  · cases hexit

end Shepoo.Server.Admission
