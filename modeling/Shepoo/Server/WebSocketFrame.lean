import Shepoo.Server.SendPacket

/-! The receiving side of a WebSocket connection, from the frame header to the emitted
packet. Buffers that the source does not initialise keep whatever they held. -/
namespace Shepoo.Server
open Foundation ByteCodec ByteSource MaskedFrame

/-- Contents of the storage that a connection process does not initialise. -/
structure Memory where
  /-- the member `_webSocket` -/
  webSocket : Bool
  payloadLen16 : Nat → UInt8
  payloadLen64 : Nat → UInt8
  payload : Nat → UInt8
  block : Nat → UInt8

inductive Refusal where
  | payloadTooLarge (payloadLength : UInt64)
  | unsupportedWebSocketVersion (version : List UInt8)
  | unsupportedProtocol (protocol : List UInt8)
  | onlyBinary
  | noPacketHeader
  | fragmented
  | truncated
  deriving DecidableEq, Repr

inductive Outcome where
  /-- `receivedPacket.emit`, with the buffer the payload pointer leads into -/
  | emit (packet : Packet) (payload : List UInt8)
  | exit (reason : Refusal)
  | fault
  | running
  deriving DecidableEq, Repr

section Receive
variable {σ : Type} [Source σ]

def readPayloadLength (memory : Memory) (header : WebSocketFrameHeader) (ssl : σ) : UInt64 × σ :=
  if header.payloadLen = 126 then
    let (payloadLen16,ssl) := sslRead 2 (fresh memory.payloadLen16 2) ssl
    (UInt64.ofNat (leValue payloadLen16),ssl)
  else if header.payloadLen = 127 then
    let (payloadLen64,ssl) := sslRead 8 (fresh memory.payloadLen64 8) ssl
    (UInt64.ofNat (leValue payloadLen64),ssl)
  else (UInt64.ofNat header.payloadLen.toNat,ssl)

/-- The key stays zero on an unmasked frame. -/
def readMaskingKey (header : WebSocketFrameHeader) (ssl : σ) : List UInt8 × σ :=
  if header.maskFlag then sslRead 4 (List.replicate 4 0) ssl
  else (List.replicate 4 0,ssl)

/-- The loop that combines `payload[i]` with `maskingKey[i%4]` in place. -/
def unmask (maskingKey : List UInt8) (payloadLength : Nat) (payload : List UInt8) : List UInt8 :=
  (List.range payloadLength).foldl
    (fun payload i => payload.modify i fun b => b ^^^ maskingKey.getD (i%4) 0) payload

/-- What is checked once the payload is in the buffer. -/
def judgeFrame (header : WebSocketFrameHeader) (payloadLength : UInt64) (payload : List UInt8) :
    Outcome :=
  if header.opcode ≠ 0x02 then .exit .onlyBinary
  else if payloadLength < 10 then .exit .noPacketHeader
  else
    let packet := Packet.ofBytes payload
    if payloadLength < 10 + packet.payloadLength then
      if !header.fin then .exit .fragmented else .exit .truncated
    else .emit packet (payload.drop Packet.size)

def handleWebSocketFrame (memory : Memory) (ssl : σ) : Outcome × σ :=
  let (raw,ssl) := sslRead 2 (List.replicate 2 0) ssl
  let header := WebSocketFrameHeader.ofBytes raw
  let (payloadLength,ssl) := readPayloadLength memory header ssl
  let (maskingKey,ssl) := readMaskingKey header ssl
  let size := payloadLength + 1
  -- the terminator is the first write; the size may have wrapped to zero
  if size ≤ payloadLength then (.fault,ssl)
  else
    let payload := (fresh memory.payload size.toNat).set payloadLength.toNat 0
    let (payload,ssl) := sslRead (intCount payloadLength) payload ssl
    let payload :=
      if header.maskFlag then unmask maskingKey payloadLength.toNat payload else payload
    (judgeFrame header payloadLength payload,ssl)

end Receive

theorem getElem?_unmask (maskingKey payload : List UInt8) (n i : Nat) :
    (unmask maskingKey n payload)[i]? =
      payload[i]?.map fun b => if i < n then b ^^^ maskingKey.getD (i%4) 0 else b := by
  induction n with
  | zero => simp [unmask]
  | succ n ih =>
    have hs : unmask maskingKey (n+1) payload = (unmask maskingKey n payload).modify n
        fun b => b ^^^ maskingKey.getD (n%4) 0 := by
      simp [unmask,List.range_succ]
    rw [hs,List.getElem?_modify,ih]
    by_cases hi : n = i
    · subst hi
      simp
    · have he : (i < n+1) ↔ i < n := by omega
      simp only [hi,if_false,he]
      cases payload[i]? <;> rfl

/-- The loop masks the announced bytes and leaves the terminator behind them alone. -/
theorem unmask_eq (maskingKey data tail : List UInt8) :
    unmask maskingKey data.length (data ++ tail) = mask maskingKey data ++ tail := by
  apply List.ext_getElem?
  intro i
  rw [getElem?_unmask]
  by_cases hi : i < data.length
  · rw [List.getElem?_append_left hi,List.getElem?_append_left (by simpa using hi),getElem?_mask]
    simp [hi]
  · rw [List.getElem?_append_right (by omega),List.getElem?_append_right (by simpa using hi)]
    simp [hi]

def frameHeader (frame : Frame) (code : Nat) : WebSocketFrameHeader :=
  ⟨frame.opcode,frame.rsv,frame.fin,BitVec.ofNat 7 code,frame.key.isSome⟩

private theorem header_ofBytes (frame : Frame) {code : Nat} (h : code < 128) :
    WebSocketFrameHeader.ofBytes
      [flagByte frame.fin frame.rsv frame.opcode,lengthByte frame.key.isSome code] =
        frameHeader frame code := by
  have hl : BitVec.ofNat 7 (lengthByte frame.key.isSome code).toNat = BitVec.ofNat 7 code := by
    apply BitVec.eq_of_toNat_eq
    have := lengthByte_code frame.key.isSome h
    rw [BitVec.toNat_ofNat,BitVec.toNat_ofNat]
    omega
  simp only [WebSocketFrameHeader.ofBytes,List.getD_cons_zero,List.getD_cons_succ,hl,
    flagByte_fin,flagByte_rsv,flagByte_opcode,lengthByte_mask _ h]
  rfl

/-- The length the server takes from an extended length field: host order. -/
def announced (order : Nat → Nat → List UInt8) : LengthForm → Nat → Nat
  | .short, n => n
  | .medium, n => leValue (order 2 n)
  | .long, n => leValue (order 8 n)

section Wire
variable {order : Nat → Nat → List UInt8} (horder : ∀ w n, (order w n).length = w)
include horder

/-- Only the seven length bits of the header decide how the length is read. -/
theorem readPayloadLength_wire (memory : Memory) {header : WebSocketFrameHeader}
    {form : LengthForm} {n : Nat} (h : form.Admits n)
    (hcode : header.payloadLen = BitVec.ofNat 7 (form.code n)) (rest : List UInt8) :
    readPayloadLength memory header (⟨form.extended order n ++ rest⟩ : Wire) =
      (UInt64.ofNat (announced order form n),⟨rest⟩) := by
  cases form with
  | short =>
    have hn : n < 126 := h
    have hv : (BitVec.ofNat 7 n).toNat = n := by
      rw [BitVec.toNat_ofNat]
      omega
    have hne (k : BitVec 7) (hk : 126 ≤ k.toNat) : BitVec.ofNat 7 n ≠ k := by
      rintro rfl
      omega
    have h6 := hne 126 (by decide)
    have h7 := hne 127 (by decide)
    simp only [LengthForm.code] at hcode
    simp only [readPayloadLength,hcode,if_neg h6,if_neg h7,hv]
    rfl
  | medium =>
    have hc : header.payloadLen = 126 := hcode
    rw [readPayloadLength,if_pos hc]
    simp only [LengthForm.extended,announced]
    rw [show (2 : Int) = ((2 : Nat) : Int) from rfl,
      sslRead_wire (length_fresh _ 2) (horder 2 n) rest]
  | long =>
    have hc : header.payloadLen = 127 := hcode
    have hd : ¬ header.payloadLen = 126 := by
      rw [hc]; decide
    rw [readPayloadLength,if_neg hd,if_pos hc]
    simp only [LengthForm.extended,announced]
    rw [show (8 : Int) = ((8 : Nat) : Int) from rfl,
      sslRead_wire (length_fresh _ 8) (horder 8 n) rest]

end Wire

def keyMemory (frame : Frame) : List UInt8 :=
  match frame.key with
  | none => List.replicate 4 0
  | some key => key.val

private theorem readMaskingKey_wire (frame : Frame) (code : Nat) (rest : List UInt8) :
    readMaskingKey (frameHeader frame code) (⟨frame.keyBytes ++ rest⟩ : Wire) =
      (keyMemory frame,⟨rest⟩) := by
  unfold readMaskingKey frameHeader Frame.keyBytes keyMemory
  cases frame.key with
  | none => rfl
  | some key =>
    simp only [Option.isSome_some,if_true]
    exact sslRead_wire (by simp) key.property rest

private theorem fresh_set (garbage : Nat → UInt8) (n : Nat) :
    (fresh garbage (n+1)).set n 0 = fresh garbage n ++ [0] := by
  simp [fresh,List.range_succ]

/-- Up to the payload the frame is read as its sender meant it, except that an
extended length is taken in host order. -/
theorem handleWebSocketFrame_wire {order : Nat → Nat → List UInt8}
    (horder : ∀ w n, (order w n).length = w) (memory : Memory) (frame : Frame)
    {form : LengthForm} (h : form.Admits frame.data.length) (rest : List UInt8) {n : Nat}
    (hn : announced order form frame.data.length = n) (hsmall : n+1 < 2^64)
    {payload : List UInt8} {ssl : Wire}
    (hr : sslRead (intCount (UInt64.ofNat n)) (fresh memory.payload n ++ [0])
      (⟨frame.maskedData ++ rest⟩ : Wire) = (payload,ssl)) :
    handleWebSocketFrame memory (⟨frame.encode order form ++ rest⟩ : Wire) =
      (judgeFrame (frameHeader frame (form.code frame.data.length)) (UInt64.ofNat n)
        (if frame.key.isSome then unmask (keyMemory frame) n payload else payload),ssl) := by
  have hc := LengthForm.code_lt h
  have hv : (UInt64.ofNat n).toNat = n := UInt64.toNat_ofNat_of_lt' (show n < 2^64 by omega)
  have hs : (UInt64.ofNat n + 1).toNat = n+1 := by
    rw [UInt64.toNat_add,hv]
    exact Nat.mod_eq_of_lt hsmall
  have hle : ¬ UInt64.ofNat n + 1 ≤ UInt64.ofNat n := by
    rw [UInt64.le_iff_toNat_le,hs,hv]
    omega
  have hhead : sslRead 2 (List.replicate 2 0) (⟨frame.encode order form ++ rest⟩ : Wire) =
      (frame.head form,⟨form.extended order frame.data.length ++ (frame.keyBytes ++
        (frame.maskedData ++ rest))⟩) := by
    rw [Frame.encode,List.append_assoc,List.append_assoc,List.append_assoc]
    exact sslRead_wire (n := 2) rfl rfl _
  have hlength (rest : List UInt8) :
      readPayloadLength memory (frameHeader frame (form.code frame.data.length))
        (⟨form.extended order frame.data.length ++ rest⟩ : Wire) =
          (UInt64.ofNat (announced order form frame.data.length),⟨rest⟩) :=
    readPayloadLength_wire horder memory h rfl rest
  rw [handleWebSocketFrame,hhead]
  simp only [Frame.head,header_ofBytes frame hc,hlength,hn,readMaskingKey_wire,if_neg hle,hs,hv,fresh_set,hr]
  rfl

theorem announced_le {form : LengthForm} {n : Nat} (h : form.Admits n) :
    announced le form n = n := by
  cases form with
  | short => rfl
  | medium => exact leValue_le_of_lt (Nat.lt_of_lt_of_eq h (by norm_num))
  | long => exact leValue_le_of_lt (Nat.lt_of_lt_of_eq h (by norm_num))

private theorem unmask_maskedData (frame : Frame) (tail : List UInt8) :
    (if frame.key.isSome then unmask (keyMemory frame) frame.data.length
      (frame.maskedData ++ tail) else frame.maskedData ++ tail) = frame.data ++ tail := by
  unfold keyMemory Frame.maskedData
  cases frame.key with
  | none => rfl
  | some key =>
    have h := unmask_eq key.val (mask key.val frame.data) tail
    rw [length_mask,mask_mask] at h
    exact h

/-- With the length in host order exactly the frame is consumed, and its unmasked data
is what the checks see. -/
theorem handleWebSocketFrame_hostOrder (memory : Memory) (frame : Frame) {form : LengthForm}
    (h : form.Admits frame.data.length) (hsmall : frame.data.length < 2^31)
    (rest : List UInt8) :
    handleWebSocketFrame memory (⟨frame.encode le form ++ rest⟩ : Wire) =
      (judgeFrame (frameHeader frame (form.code frame.data.length))
        (UInt64.ofNat frame.data.length) (frame.data ++ [0]),⟨rest⟩) := by
  have hr := sslRead_wire_prefix (length_fresh memory.payload frame.data.length)
    frame.length_maskedData [0] rest
  rw [← intCount_ofNat hsmall] at hr
  rw [handleWebSocketFrame_wire length_le memory frame h rest (announced_le h) (by omega) hr,
    unmask_maskedData]

/-- Everything an emission says about the buffer and the announced length. -/
theorem judgeFrame_eq_emit {header : WebSocketFrameHeader} {payloadLength : UInt64}
    {buffer payload : List UInt8} {packet : Packet} :
    judgeFrame header payloadLength buffer = .emit packet payload ↔
      header.opcode = 0x02 ∧ 10 ≤ payloadLength ∧
      10 + packet.payloadLength ≤ payloadLength ∧
      packet = Packet.ofBytes buffer ∧ payload = buffer.drop Packet.size := by
  rw [← UInt64.not_lt,← UInt64.not_lt]
  unfold judgeFrame
  by_cases ho : header.opcode = 0x02
  · by_cases hl : payloadLength < 10
    · simp only [ho,hl,ne_eq,not_true,if_true,if_false,reduceCtorEq,false_and,and_false]
    · by_cases hs : payloadLength < 10 + (Packet.ofBytes buffer).payloadLength
      · simp only [ho,hl,hs,ne_eq,not_true,if_true,if_false]
        refine iff_of_false ?_ ?_
        · split <;> exact Outcome.noConfusion
        · rintro ⟨_,_,hn,rfl,_⟩
          exact hn hs
      · simp only [ho,hl,hs,ne_eq,not_true,if_false,Outcome.emit.injEq,true_and,not_false_eq_true]
        constructor
        · rintro ⟨rfl,rfl⟩
          exact ⟨hs,rfl,rfl⟩
        · rintro ⟨_,rfl,rfl⟩
          exact ⟨rfl,rfl⟩
  · simp only [ho,ne_eq,not_false_eq_true,if_true,reduceCtorEq,false_and]

/-- A whole packet in the buffer is emitted; the sum of the lengths cannot wrap. -/
theorem judgeFrame_emit {header : WebSocketFrameHeader} (ho : header.opcode = 0x02)
    {packet : Packet} {payloadLength : UInt64}
    (h : 10 + packet.payloadLength.toNat ≤ payloadLength.toNat) (tail : List UInt8) :
    judgeFrame header payloadLength (packet.bytes ++ tail) = .emit packet tail := by
  have hlt := payloadLength.toNat_lt
  refine judgeFrame_eq_emit.mpr ⟨ho,?_,?_,(Packet.ofBytes_bytes packet tail).symm,
    (List.drop_left' (Packet.length_bytes packet)).symm⟩
  · rw [UInt64.le_iff_toNat_le]
    change 10 ≤ _
    omega
  · rw [UInt64.le_iff_toNat_le,UInt64.toNat_add]
    change (10 + _) % 2^64 ≤ _
    omega

end Shepoo.Server
