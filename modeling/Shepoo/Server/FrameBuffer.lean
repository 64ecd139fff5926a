import Shepoo.Server.FrameRoundTrip

/-! The payload buffer of a frame: its size, the places written in it and the count of the
read that fills it all come from the announced length, each by its own arithmetic. -/
namespace Shepoo.Server.FrameBuffer
open Foundation ByteCodec ByteSource MaskedFrame

structure BufferUse where
  /-- the operand of `new`, computed in 64 bits -/
  size : UInt64
  terminator : Nat
  /-- the indices of the unmasking loop -/
  loop : List Nat
  /-- the `num` of `SSL_read` -/
  count : Int

def bufferUse (header : WebSocketFrameHeader) (payloadLength : UInt64) : BufferUse where
  size := payloadLength + 1
  terminator := payloadLength.toNat
  loop := if header.maskFlag then List.range payloadLength.toNat else []
  count := intCount payloadLength

/-- The decoder touches its buffer in this way and no other. -/
theorem handleWebSocketFrame_use {σ : Type} [Source σ] (memory : Memory) (ssl : σ) :
    handleWebSocketFrame memory ssl =
      let (raw,ssl) := sslRead 2 (List.replicate 2 0) ssl
      let header := WebSocketFrameHeader.ofBytes raw
      let (payloadLength,ssl) := readPayloadLength memory header ssl
      let (maskingKey,ssl) := readMaskingKey header ssl
      let use := bufferUse header payloadLength
      if use.size ≤ payloadLength then (.fault,ssl)
      else
        let payload := (fresh memory.payload use.size.toNat).set use.terminator 0
        let (payload,ssl) := sslRead use.count payload ssl
        let payload := use.loop.foldl
          (fun payload i => payload.modify i fun b => b ^^^ maskingKey.getD (i%4) 0) payload
        (judgeFrame header payloadLength payload,ssl) := by
  rw [handleWebSocketFrame]
  simp only [bufferUse,unmask]
  cases (WebSocketFrameHeader.ofBytes (sslRead 2 (List.replicate 2 0) ssl).1).maskFlag <;> rfl

structure Exact (use : BufferUse) (payloadLength : Nat) : Prop where
  terminator : use.terminator < use.size.toNat
  loop : ∀ i ∈ use.loop, i < use.size.toNat
  count : use.count = payloadLength

/-- The size wraps for one length only, but the count of the read is an `int`. -/
private theorem bufferUse_exact_iff (header : WebSocketFrameHeader) (payloadLength : UInt64) :
    Exact (bufferUse header payloadLength) payloadLength.toNat ↔ payloadLength.toNat < 2^31 := by
  constructor
  · intro h
    have hc : intCount payloadLength = payloadLength.toNat := h.count
    rw [intCount_eq] at hc
    split at hc <;> omega
  · intro h
    have hs : (bufferUse header payloadLength).size.toNat = payloadLength.toNat+1 := by
      change (payloadLength+1).toNat = _
      rw [UInt64.toNat_add]
      exact Nat.mod_eq_of_lt (show payloadLength.toNat+1 < 2^64 by omega)
    refine ⟨hs.symm ▸ Nat.lt_succ_self _,fun i hi => ?_,intCount_small h⟩
    change i ∈ if header.maskFlag then _ else _ at hi
    split at hi
    · have := List.mem_range.mp hi
      omega
    · cases hi

/-- For every length a client can announce, in each form of the field, the arithmetic is
exact just below the sign bit of an `int`. -/
theorem buffer_exact_iff (memory : Memory) (header : WebSocketFrameHeader) (form : LengthForm)
    (n : Nat) (h : form.Admits n) (hcode : header.payloadLen = BitVec.ofNat 7 (form.code n))
    (rest : List UInt8) :
    Exact (bufferUse header
      (readPayloadLength memory header (⟨form.extended le n ++ rest⟩ : Wire)).1) n ↔
        n < 2^31 := by
  have hlt : n < 2^64 := by
    cases form with
    | short => exact Nat.lt_trans h (by decide)
    | medium => exact Nat.lt_trans h (by decide)
    | long => exact h
  have hv : (UInt64.ofNat n).toNat = n := UInt64.toNat_ofNat_of_lt' hlt
  have hexact := bufferUse_exact_iff header (UInt64.ofNat n)
  rw [hv] at hexact
  rw [readPayloadLength_wire length_le memory h hcode rest,announced_le h]
  exact hexact

def longHeader : WebSocketFrameHeader := ⟨2,0,true,127,true⟩

theorem long_buffer_exact_iff :
    Exact (bufferUse longHeader (readPayloadLength FrameRoundTrip.someMemory longHeader
      (⟨LengthForm.long.extended le 1000 ++ []⟩ : Wire)).1) 1000 ↔ 1000 < 2^31 :=
  buffer_exact_iff FrameRoundTrip.someMemory longHeader .long 1000 (by decide) rfl []

/-- For the largest length the buffer has no bytes at all and its terminator is written
2^64-1 places behind it. -/
theorem largest_length_overflows :
    ¬ Exact (bufferUse longHeader (readPayloadLength FrameRoundTrip.someMemory longHeader
      (⟨LengthForm.long.extended le (2^64-1)⟩ : Wire)).1) (2^64-1) := by
  intro h
  exact absurd h.terminator (by decide)

end Shepoo.Server.FrameBuffer
