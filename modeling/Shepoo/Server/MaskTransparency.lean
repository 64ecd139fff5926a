import Shepoo.Server.FrameRoundTrip

/-! Masked and unmasked frames with the same data. The unmasking loop undoes the mask, and
nothing behind it looks at the mask flag, so neither the verdict nor the bytes differ. -/
namespace Shepoo.Server.MaskTransparency
open Foundation ByteCodec ByteSource MaskedFrame

/-- The checks look at two fields of the header. -/
private theorem judgeFrame_congr {header header' : WebSocketFrameHeader}
    (ho : header.opcode = header'.opcode) (hf : header.fin = header'.fin)
    (payloadLength : UInt64) (payload : List UInt8) :
    judgeFrame header payloadLength payload = judgeFrame header' payloadLength payload := by
  unfold judgeFrame
  rw [ho,hf]

/-- The checks come to a verdict on every payload. -/
private theorem judgeFrame_settles (header : WebSocketFrameHeader) (payloadLength : UInt64)
    (payload : List UInt8) :
    (∃ packet rest, judgeFrame header payloadLength payload = .emit packet rest) ∨
    ∃ reason, judgeFrame header payloadLength payload = .exit reason := by
  fun_cases judgeFrame header payloadLength payload with
  | case5 => exact .inl ⟨_,_,rfl⟩
  | _ => exact .inr ⟨_,rfl⟩

/-- With a key and without one the same data has the same outcome, an emission or an exit,
and each run stops right behind its own frame. -/
theorem masking_transparent (fin : Bool) (rsv : BitVec 3) (opcode : BitVec 4)
    (key : MaskingKey) (data : List UInt8) (hsmall : data.length < 2^31-1)
    (form form' : LengthForm) (hf : form.Admits data.length) (hf' : form'.Admits data.length)
    (memory memory' : Memory) (rest rest' : List UInt8) :
    ∃ outcome,
      handleWebSocketFrame memory
        (⟨(⟨fin,rsv,opcode,some key,data⟩ : Frame).encode le form ++ rest⟩ : Wire) =
          (outcome,⟨rest⟩) ∧
      handleWebSocketFrame memory'
        (⟨(⟨fin,rsv,opcode,none,data⟩ : Frame).encode le form' ++ rest'⟩ : Wire) =
          (outcome,⟨rest'⟩) ∧
      ((∃ packet payload, outcome = .emit packet payload) ∨ ∃ reason, outcome = .exit reason) := by
  have hsmall' : data.length < 2^31 := hsmall.trans (by decide)
  have hmasked := handleWebSocketFrame_hostOrder memory ⟨fin,rsv,opcode,some key,data⟩ hf hsmall'
    rest
  have hplain := handleWebSocketFrame_hostOrder memory' ⟨fin,rsv,opcode,none,data⟩ hf' hsmall'
    rest'
  have hsame : judgeFrame (frameHeader ⟨fin,rsv,opcode,none,data⟩ (form'.code data.length))
      (UInt64.ofNat data.length) (data ++ [0]) =
      judgeFrame (frameHeader ⟨fin,rsv,opcode,some key,data⟩ (form.code data.length))
        (UInt64.ofNat data.length) (data ++ [0]) := judgeFrame_congr rfl rfl _ _
  rw [hsame] at hplain
  exact ⟨_,hmasked,hplain,judgeFrame_settles _ _ _⟩

/-- A request for block 0, masked in the medium form and bare in the short one. -/
theorem block_request_transparent :
    ∃ outcome,
      handleWebSocketFrame FrameRoundTrip.someMemory
        (⟨(⟨true,0,2,some ⟨[1,2,3,4],rfl⟩,[1,1,8,0,0,0,0,0,0,0,0,0,0,0,0,0,0,0]⟩ : Frame).encode
          le .medium ++ [9]⟩ : Wire) = (outcome,⟨[9]⟩) ∧
      handleWebSocketFrame FrameRoundTrip.someMemory
        (⟨(⟨true,0,2,none,[1,1,8,0,0,0,0,0,0,0,0,0,0,0,0,0,0,0]⟩ : Frame).encode
          le .short ++ []⟩ : Wire) = (outcome,⟨[]⟩) ∧
      ((∃ packet payload, outcome = .emit packet payload) ∨ ∃ reason, outcome = .exit reason) :=
  masking_transparent true 0 2 ⟨[1,2,3,4],rfl⟩ [1,1,8,0,0,0,0,0,0,0,0,0,0,0,0,0,0,0]
    (by decide) .medium .short (by decide) (by decide) FrameRoundTrip.someMemory
    FrameRoundTrip.someMemory [9] []

end Shepoo.Server.MaskTransparency
