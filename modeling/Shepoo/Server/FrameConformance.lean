import Shepoo.Server.SendPacket

/-! The server's frames against the standard it negotiates. The handshake insists on
WebSocket version 13, whose extended lengths are minimal and in network byte order. -/
namespace Shepoo.Server.FrameConformance
open Foundation ByteCodec MaskedFrame

/-- The bytes are the standard's frame for the message: final, unmasked and binary, and
a decoder that follows the standard reads back just that. -/
def Conforms (message : Message) (written : List UInt8) : Prop :=
  written = (packetFrame message).standard ∧ decode written = some (packetFrame message,[])

/-- The standard's frames carry lengths below 2^63, so conforming is being its encoding. -/
private theorem conforms_iff {message : Message} (h : message.bytes.length < 2^63)
    (written : List UInt8) :
    Conforms message written ↔ written = (packetFrame message).standard := by
  refine ⟨fun hc => hc.1,fun he => ⟨he,?_⟩⟩
  have hf : (packetFrame message).data.length < 2^63 := h
  have hd := decode_standard hf []
  rwa [List.append_nil,← he] at hd

/-- Two encodings of one frame in the same form differ only in the length bytes. -/
private theorem encode_eq_iff (frame : Frame) (form : LengthForm) :
    frame.encode le form = frame.encode be form ↔
      form.extended le frame.data.length = form.extended be frame.data.length := by
  rw [Frame.encode,Frame.encode,List.append_right_inj]
  exact List.append_left_inj _

private theorem ofNat_eq_iff (a b : Nat) : UInt8.ofNat a = UInt8.ofNat b ↔ a%256 = b%256 := by
  rw [← UInt8.toNat_inj,UInt8.toNat_ofNat',UInt8.toNat_ofNat']

/-- Both orders of two bytes agree when the bytes do. -/
private theorem medium_orders {n : Nat} (h : n < 2^16) : le 2 n = be 2 n ↔ n%256 = n/256 := by
  simp only [be,le,List.reverse_cons,List.reverse_nil,List.nil_append,List.cons_append,
    List.cons.injEq,ofNat_eq_iff,and_true]
  omega

/-- Eight bytes with the upper half zero read the same both ways only for zero. -/
private theorem long_orders {n : Nat} (hpos : 0 < n) (h : n < 2^32) : le 8 n ≠ be 8 n := by
  have hz : n/256/256/256/256 = 0 := by
    simp only [Nat.div_div_eq_div_mul]
    omega
  simp only [be,le,List.reverse_cons,List.reverse_nil,List.nil_append,List.cons_append,ne_eq,
    List.cons.injEq,ofNat_eq_iff,and_true,hz,Nat.zero_div,Nat.zero_mod]
  omega

/-- The threshold 65535 sends that length in eight bytes where two are prescribed. -/
private theorem threshold_not_standard (message : Message) (h : message.bytes.length = 65535) :
    (packetFrame message).encode le (sentForm message.bytes.length) ≠
      (packetFrame message).standard := by
  intro he
  have hl := congrArg List.length he
  simp [h,sentForm,LengthForm.minimal,Frame.standard,Frame.encode,Frame.head,
    LengthForm.extended,Frame.keyBytes,packetFrame] at hl

/-- A frame the server writes is the standard's exactly when its length fits the seven
bits, or takes two bytes that happen to be equal. -/
theorem sendPacket_conforms_iff (message : Message)
    (h : message.packet.payloadLength.toNat + 10 < 2^31) :
    Conforms message (sendPacket true message.packet (some message.payload)).written ↔
      message.packet.payloadLength.toNat + 10 ≤ 125 ∨
      (message.packet.payloadLength.toNat + 10 < 65535 ∧
        (message.packet.payloadLength.toNat + 10)%256 =
          (message.packet.payloadLength.toNat + 10)/256) := by
  have hlen := message.length_bytes
  rw [Nat.add_comm] at hlen
  rw [conforms_iff (by omega),sendPacket_webSocket message (by omega),← hlen]
  have hd : (packetFrame message).data.length = message.bytes.length := rfl
  generalize hn : message.bytes.length = n at *
  by_cases hs : n < 126
  · have hm : LengthForm.minimal n = .short := by simp [LengthForm.minimal,hs]
    have hf : sentForm n = .short := by simp [sentForm,hs]
    rw [Frame.standard,hd,hm,hf,encode_eq_iff]
    simp only [LengthForm.extended,true_iff]
    omega
  · by_cases hb : n < 65535
    · have hm : LengthForm.minimal n = .medium := by
        simp [LengthForm.minimal,hs,show n < 65536 by omega]
      have hf : sentForm n = .medium := by simp [sentForm,hs,hb]
      rw [Frame.standard,hd,hm,hf,encode_eq_iff,hd]
      simp only [LengthForm.extended]
      rw [medium_orders (by omega)]
      omega
    · by_cases he : n = 65535
      · refine iff_of_false ?_ (by omega)
        rw [← hn]
        exact threshold_not_standard message (hn.trans he)
      · have hm : LengthForm.minimal n = .long := by
          simp [LengthForm.minimal,hs,show ¬ n < 65536 by omega]
        have hf : sentForm n = .long := by simp [sentForm,hs,hb]
        rw [Frame.standard,hd,hm,hf,encode_eq_iff,hd]
        simp only [LengthForm.extended]
        exact iff_of_false (long_orders (by omega) (by omega)) (by omega)

def blockMessage : Message where
  packet := ⟨1,5,4096⟩
  payload := List.replicate 4096 0
  exact := List.length_replicate

theorem block_conforms_iff :
    Conforms blockMessage
        (sendPacket true blockMessage.packet (some blockMessage.payload)).written ↔
      (4096 : UInt64).toNat + 10 ≤ 125 ∨
      ((4096 : UInt64).toNat + 10 < 65535 ∧
        ((4096 : UInt64).toNat + 10)%256 = ((4096 : UInt64).toNat + 10)/256) :=
  sendPacket_conforms_iff blockMessage (by decide)

/-- Its length 4106 leaves as 0A 10 where the standard prescribes 10 0A. -/
theorem block_frame_not_standard :
    ¬ Conforms blockMessage
      (sendPacket true blockMessage.packet (some blockMessage.payload)).written := by
  have hlen : blockMessage.bytes.length = 4106 := blockMessage.length_bytes
  have hd : (packetFrame blockMessage).data.length = 4106 := hlen
  have hs : sentForm 4106 = .medium := by decide
  have hm : LengthForm.minimal 4106 = .medium := by decide
  rw [conforms_iff (by omega),sendPacket_webSocket blockMessage (by decide),hlen,hs,
    Frame.standard,hd,hm,encode_eq_iff,hd]
  decide

end Shepoo.Server.FrameConformance
