import Shepoo.Server.WebSocketFrame

/-! The server reads back its own frames. Writer and reader choose their length forms
by different tests, but agree on the bytes of each form. -/
namespace Shepoo.Server.FrameRoundTrip
open Foundation ByteCodec ByteSource MaskedFrame

/-- A host-order frame around a message emits the message and consumes just the frame,
whatever its reserved bits and masking key. -/
theorem message_frame_emitted (memory : Memory) (message : Message) {frame : Frame}
    (hd : frame.data = message.bytes) (ho : frame.opcode = 0x02) {form : LengthForm}
    (hf : form.Admits message.bytes.length) (hsmall : message.bytes.length < 2^31)
    (rest : List UInt8) :
    handleWebSocketFrame memory (⟨frame.encode le form ++ rest⟩ : Wire) =
      (.emit message.packet (message.payload ++ [0]),⟨rest⟩) := by
  rw [← hd] at hf hsmall
  have hv : (UInt64.ofNat frame.data.length).toNat = 10 + message.packet.payloadLength.toNat := by
    rw [UInt64.toNat_ofNat_of_lt' (show _ < 2^64 by omega),hd,Message.length_bytes]
  rw [handleWebSocketFrame_hostOrder memory frame hf hsmall rest]
  have hb : frame.data ++ [0] = message.packet.bytes ++ (message.payload ++ [0]) := by
    rw [hd,Message.bytes,List.append_assoc]
  have hop : (frameHeader frame (form.code frame.data.length)).opcode = 0x02 := ho
  rw [hb,judgeFrame_emit hop hv.ge]

/-- What `sendPacket` writes on a WebSocket, `handleWebSocketFrame` reads as the same
packet and payload, leaving exactly the bytes that follow. -/
theorem sent_frame_received (memory : Memory) (message : Message)
    (h : message.packet.payloadLength ≤ maxPacketPayloadSize) (rest : List UInt8) :
    (sendPacket true message.packet (some message.payload)).completed = true ∧
    ∃ payload, handleWebSocketFrame memory
        (⟨(sendPacket true message.packet (some message.payload)).written ++ rest⟩ : Wire) =
          (.emit message.packet payload,⟨rest⟩) ∧
      payload.take message.packet.payloadLength.toNat = message.payload := by
  have hm := max_small h
  have hl := message.length_bytes
  rw [sendPacket_webSocket message (by omega)]
  refine ⟨rfl,message.payload ++ [0],?_,List.take_left' message.exact⟩
  exact message_frame_emitted memory message rfl rfl (sentForm_admits (by omega)) (by omega) rest

/-- The uninitialised storage of a process, at one choice of contents. -/
def someMemory : Memory := ⟨false,fun _ => 0,fun _ => 0,fun _ => 0xAA,fun _ => 0xAA⟩

/-- A block of 200 bytes, in the form with a length of two bytes, and three more bytes. -/
theorem block_answer_received :
    (sendPacket true ⟨1,5,200⟩ (some (List.replicate 200 0xAB))).completed = true ∧
    ∃ payload, handleWebSocketFrame someMemory
        (⟨(sendPacket true ⟨1,5,200⟩ (some (List.replicate 200 0xAB))).written ++ [1,2,3]⟩ : Wire) =
          (.emit ⟨1,5,200⟩ payload,⟨[1,2,3]⟩) ∧ payload.take 200 = List.replicate 200 0xAB :=
  sent_frame_received someMemory ⟨⟨1,5,200⟩,List.replicate 200 0xAB,List.length_replicate⟩
    (by decide) [1,2,3]

end Shepoo.Server.FrameRoundTrip
