import Shepoo.Server.FrameRoundTrip

/-! Which frames reach the dispatcher, over every byte sequence that brings its frame in
full. The bytes are taken apart as the code does it and turn out to be an encoding, so
what is known of encoded frames holds of all of them. -/
namespace Shepoo.Server.FrameDispatch
open Foundation ByteCodec ByteSource MaskedFrame

section Fields
variable (bytes : List UInt8)

def header : WebSocketFrameHeader := .ofBytes (bytes.take 2)

def form : LengthForm :=
  if (header bytes).payloadLen = 126 then .medium
  else if (header bytes).payloadLen = 127 then .long
  else .short

def lengthField : List UInt8 := (bytes.drop 2).take (form bytes).width

def payloadLength : Nat :=
  match form bytes with
  | .short => (header bytes).payloadLen.toNat
  | _ => leValue (lengthField bytes)

def keyWidth : Nat := if (header bytes).maskFlag then 4 else 0

def keyField : List UInt8 := (bytes.drop (2+(form bytes).width)).take (keyWidth bytes)

def payloadStart : Nat := 2+(form bytes).width+keyWidth bytes

def payloadField : List UInt8 := (bytes.drop (payloadStart bytes)).take (payloadLength bytes)

def payload : List UInt8 :=
  if (header bytes).maskFlag then mask (keyField bytes) (payloadField bytes)
  else payloadField bytes

def following : List UInt8 := bytes.drop (payloadStart bytes+payloadLength bytes)

/-- Every byte that the frame announces is there to be read. -/
def Complete : Prop := payloadStart bytes+payloadLength bytes ≤ bytes.length

instance : Decidable (Complete bytes) := inferInstanceAs (Decidable (_ ≤ _))

def key : Option MaskingKey :=
  if h : (keyField bytes).length = 4 then some ⟨keyField bytes,h⟩ else none

def frame : Frame :=
  ⟨(header bytes).fin,(header bytes).rsvd,(header bytes).opcode,key bytes,payload bytes⟩

end Fields

section Complete
variable {bytes : List UInt8}

private theorem length_lengthField (h : Complete bytes) :
    (lengthField bytes).length = (form bytes).width := by
  unfold Complete payloadStart at h
  rw [lengthField,List.length_take,List.length_drop]
  omega

private theorem length_keyField (h : Complete bytes) :
    (keyField bytes).length = keyWidth bytes := by
  unfold Complete payloadStart at h
  rw [keyField,List.length_take,List.length_drop]
  omega

theorem length_payload (h : Complete bytes) : (payload bytes).length = payloadLength bytes := by
  unfold Complete at h
  have hf : (payloadField bytes).length = payloadLength bytes := by
    rw [payloadField,List.length_take,List.length_drop]
    omega
  unfold payload
  split
  · rw [length_mask,hf]
  · exact hf

private theorem key_isSome (h : Complete bytes) :
    (key bytes).isSome = (header bytes).maskFlag := by
  have hk := length_keyField h
  unfold keyWidth at hk
  unfold key
  cases hm : (header bytes).maskFlag with
  | true =>
    rw [hm,if_pos rfl] at hk
    rw [dif_pos hk]
    rfl
  | false =>
    rw [hm,if_neg Bool.false_ne_true] at hk
    rw [dif_neg (by omega)]
    rfl

private theorem form_admits (h : Complete bytes) :
    (form bytes).Admits (payloadLength bytes) := by
  have hl := length_lengthField h
  have hv := leValue_lt (lengthField bytes)
  rw [hl] at hv
  unfold payloadLength
  cases hf : form bytes with
  | short =>
    have h7 := (header bytes).payloadLen.isLt
    have hne6 : (header bytes).payloadLen.toNat ≠ 126 := by
      intro he
      have : (header bytes).payloadLen = 126 := BitVec.eq_of_toNat_eq he
      rw [form,if_pos this] at hf
      cases hf
    have hne7 : (header bytes).payloadLen.toNat ≠ 127 := by
      intro he
      have : (header bytes).payloadLen = 127 := BitVec.eq_of_toNat_eq he
      rw [form,this] at hf
      cases hf
    change _ < 126
    simp only
    omega
  | medium =>
    rw [hf] at hv
    exact hv.trans_eq (by norm_num [LengthForm.width])
  | long =>
    rw [hf] at hv
    exact hv.trans_eq (by norm_num [LengthForm.width])

/-- The seven length bits are the code of the form. -/
private theorem code_form (bytes : List UInt8) :
    (form bytes).code (payloadLength bytes) = (header bytes).payloadLen.toNat := by
  unfold payloadLength form
  by_cases h6 : (header bytes).payloadLen = 126
  · simp only [if_pos h6,LengthForm.code]
    rw [h6]
    rfl
  · by_cases h7 : (header bytes).payloadLen = 127
    · simp only [if_neg h6,if_pos h7,LengthForm.code]
      rw [h7]
      rfl
    · simp only [if_neg h6,if_neg h7,LengthForm.code]

private theorem extended_lengthField (h : Complete bytes) :
    (form bytes).extended le (payloadLength bytes) = lengthField bytes := by
  have hl := length_lengthField h
  have hb := le_leValue (lengthField bytes)
  rw [hl] at hb
  unfold payloadLength
  cases hf : form bytes with
  | short =>
    rw [hf] at hl
    exact (List.length_eq_zero_iff.mp hl).symm
  | medium =>
    rw [hf] at hb
    exact hb
  | long =>
    rw [hf] at hb
    exact hb

private theorem head_bytes (h : Complete bytes) :
    [flagByte (header bytes).fin (header bytes).rsvd (header bytes).opcode,
      lengthByte (header bytes).maskFlag (header bytes).payloadLen.toNat] = bytes.take 2 := by
  unfold Complete payloadStart at h
  match bytes,h with
  | b0::b1::_,_ =>
    have hv : (BitVec.ofNat 7 b1.toNat).toNat = b1.toNat%128 := BitVec.toNat_ofNat _ _
    have hlen := lengthByte_bits b1
    rw [← hv] at hlen
    exact congrArg₂ (fun x y => [x,y]) (flagByte_bits b0) hlen
  | [],h => simp at h
  | [_],h => simp at h; omega

private theorem keyBytes_frame (h : Complete bytes) : (frame bytes).keyBytes = keyField bytes := by
  have hk := length_keyField h
  unfold Frame.keyBytes frame key
  split
  · next heq =>
    split at heq
    · cases heq
    · next hn =>
      unfold keyWidth at hk
      split at hk
      · exact absurd hk hn
      · exact (List.length_eq_zero_iff.mp hk).symm
  · next k heq =>
    split at heq
    · cases heq
      rfl
    · cases heq

private theorem maskedData_frame (h : Complete bytes) :
    (frame bytes).maskedData = payloadField bytes := by
  have hk := length_keyField h
  unfold Frame.maskedData frame key payload
  unfold keyWidth at hk
  cases hm : (header bytes).maskFlag with
  | true =>
    rw [hm,if_pos rfl] at hk
    simp only [dif_pos hk,if_true]
    exact mask_mask _ _
  | false =>
    rw [hm,if_neg Bool.false_ne_true] at hk
    have hn : ¬ (keyField bytes).length = 4 := by omega
    simp only [dif_neg hn,Bool.false_eq_true,if_false]

/-- A field and what is behind it. -/
private theorem field_append (a w : Nat) (bytes : List UInt8) :
    (bytes.drop a).take w ++ bytes.drop (a+w) = bytes.drop a := by
  rw [← List.drop_drop,List.take_append_drop]

/-- A byte sequence with a complete frame at its front is an encoding of that frame. -/
theorem encode_frame (h : Complete bytes) :
    (frame bytes).encode le (form bytes) ++ following bytes = bytes := by
  have hlen := length_payload h
  have hhead : (frame bytes).head (form bytes) = bytes.take 2 := by
    rw [Frame.head]
    change [flagByte _ _ _,lengthByte (key bytes).isSome
      ((form bytes).code (payload bytes).length)] = _
    rw [hlen,code_form,key_isSome h]
    exact head_bytes h
  have hext : (form bytes).extended le (frame bytes).data.length = lengthField bytes := by
    rw [← extended_lengthField h,← hlen]
    rfl
  have hpay : payloadField bytes ++ following bytes = bytes.drop (payloadStart bytes) :=
    field_append _ _ bytes
  have hkey : keyField bytes ++ bytes.drop (payloadStart bytes) =
      bytes.drop (2+(form bytes).width) := field_append _ _ bytes
  have hfield : lengthField bytes ++ bytes.drop (2+(form bytes).width) = bytes.drop 2 :=
    field_append _ _ bytes
  rw [Frame.encode,hhead,hext,keyBytes_frame h,maskedData_frame h,List.append_assoc,
    List.append_assoc,List.append_assoc,hpay,hkey,hfield,List.take_append_drop]

/-- What is announced is consumed, and the checks see the unmasked payload. -/
theorem handleWebSocketFrame_complete (memory : Memory) (h : Complete bytes)
    (hsmall : payloadLength bytes < 2^31) :
    ∃ settled : WebSocketFrameHeader, settled.opcode = (header bytes).opcode ∧
      handleWebSocketFrame memory (⟨bytes⟩ : Wire) =
        (judgeFrame settled (UInt64.ofNat (payloadLength bytes)) (payload bytes ++ [0]),
          ⟨following bytes⟩) := by
  have hlen : (frame bytes).data.length = payloadLength bytes := length_payload h
  have hf := form_admits h
  rw [← hlen] at hf hsmall ⊢
  refine ⟨frameHeader (frame bytes) ((form bytes).code (frame bytes).data.length),rfl,?_⟩
  have hrun := handleWebSocketFrame_hostOrder memory (frame bytes) hf hsmall (following bytes)
  rw [encode_frame h] at hrun
  exact hrun

def packet (bytes : List UInt8) : Packet := Packet.ofBytes ((payload bytes).take 10)

private theorem packet_eq (h : 10 ≤ (payload bytes).length) (tail : List UInt8) :
    Packet.ofBytes (payload bytes ++ tail) = packet bytes := by
  have ht : ((payload bytes).take 10).length = 10 := List.length_take_of_le h
  have hb := Packet.ofBytes_bytes (packet bytes) ((payload bytes).drop 10 ++ tail)
  rwa [packet,Packet.bytes_ofBytes ht,← List.append_assoc,List.take_append_drop] at hb

/-- The comparison as the code makes it, on a sum that may have wrapped. -/
theorem emits_iff (memory : Memory) (h : Complete bytes) (hsmall : payloadLength bytes < 2^31)
    (sent : Packet) (buffer : List UInt8) :
    (handleWebSocketFrame memory (⟨bytes⟩ : Wire)).1 = .emit sent buffer ↔
      (header bytes).opcode = 0x02 ∧ 10 ≤ payloadLength bytes ∧
      (10 + (packet bytes).payloadLength.toNat) % 2^64 ≤ payloadLength bytes ∧
      sent = packet bytes ∧ buffer = (payload bytes).drop 10 ++ [0] := by
  obtain ⟨settled,hop,hrun⟩ := handleWebSocketFrame_complete memory h hsmall
  have hlen := length_payload h
  have hv : (UInt64.ofNat (payloadLength bytes)).toNat = payloadLength bytes :=
    UInt64.toNat_ofNat_of_lt' (show _ < 2^64 by omega)
  rw [hrun,judgeFrame_eq_emit,hop,UInt64.le_iff_toNat_le,UInt64.le_iff_toNat_le,
    UInt64.toNat_add,hv]
  refine and_congr_right fun _ => and_congr_right fun hten => ?_
  have hten' : 10 ≤ (payload bytes).length := hlen.symm ▸ hten
  rw [packet_eq hten',Packet.size,List.drop_append_of_le_length hten']
  constructor
  · rintro ⟨hle,rfl,hb⟩
    exact ⟨hle,rfl,hb⟩
  · rintro ⟨hle,rfl,hb⟩
    exact ⟨hle,rfl,hb⟩

end Complete

/-- Frames that contain a whole packet are dispatched and no others, and behind the
header of a dispatched packet stand as many received bytes as it announces. -/
structure Exact (memory : Memory) (bytes : List UInt8) : Prop where
  dispatched : (∃ sent buffer,
      (handleWebSocketFrame memory (⟨bytes⟩ : Wire)).1 = .emit sent buffer) ↔
    (header bytes).opcode = 0x02 ∧ 10 ≤ payloadLength bytes ∧
      10 + (packet bytes).payloadLength.toNat ≤ payloadLength bytes
  covered : ∀ sent buffer,
    (handleWebSocketFrame memory (⟨bytes⟩ : Wire)).1 = .emit sent buffer →
      sent = packet bytes ∧ ((payload bytes).drop 10) <+: buffer ∧
      sent.payloadLength.toNat ≤ ((payload bytes).drop 10).length

/-- The dispatch is exact unless the sum of the lengths wraps. -/
theorem exact_iff (memory : Memory) {bytes : List UInt8} (h : Complete bytes)
    (hsmall : payloadLength bytes < 2^31-1) :
    Exact memory bytes ↔
      ¬ ((header bytes).opcode = 0x02 ∧ 10 ≤ payloadLength bytes ∧
        2^64 ≤ 10 + (packet bytes).payloadLength.toNat) := by
  have hsmall' : payloadLength bytes < 2^31 := hsmall.trans (by decide)
  have hlt := (packet bytes).payloadLength.toNat_lt
  have hemits := emits_iff memory h hsmall'
  constructor
  · rintro ⟨hdispatched,_⟩ ⟨hop,hten,hwrap⟩
    have hle : (10 + (packet bytes).payloadLength.toNat) % 2^64 ≤ payloadLength bytes := by omega
    have hemit := (hemits _ _).mpr ⟨hop,hten,hle,rfl,rfl⟩
    have hwhole := (hdispatched.mp ⟨_,_,hemit⟩).2.2
    omega
  · intro hn
    constructor
    · constructor
      · rintro ⟨sent,buffer,he⟩
        obtain ⟨hop,hten,hle,_,_⟩ := (hemits sent buffer).mp he
        have hfit : ¬ 2^64 ≤ 10 + (packet bytes).payloadLength.toNat :=
          fun hwrap => hn ⟨hop,hten,hwrap⟩
        exact ⟨hop,hten,by omega⟩
      · rintro ⟨hop,hten,hwhole⟩
        exact ⟨_,_,(hemits _ _).mpr ⟨hop,hten,by omega,rfl,rfl⟩⟩
    · intro sent buffer he
      obtain ⟨hop,hten,hle,rfl,rfl⟩ := (hemits sent buffer).mp he
      have hfit : ¬ 2^64 ≤ 10 + (packet bytes).payloadLength.toNat :=
        fun hwrap => hn ⟨hop,hten,hwrap⟩
      refine ⟨rfl,List.prefix_append _ _,?_⟩
      rw [List.length_drop,length_payload h]
      omega

/-- A binary frame around a bare packet header that announces 2^64-1 bytes. -/
def wrappingFrame : List UInt8 := [0x82,10,1,6,255,255,255,255,255,255,255,255]

theorem wrapping_exact_iff :
    Exact FrameRoundTrip.someMemory wrappingFrame ↔
      ¬ ((header wrappingFrame).opcode = 0x02 ∧ 10 ≤ payloadLength wrappingFrame ∧
        2^64 ≤ 10 + (packet wrappingFrame).payloadLength.toNat) :=
  exact_iff FrameRoundTrip.someMemory (by decide) (by decide)

/-- The sum wraps to 9, and the packet is dispatched with nothing behind its header. -/
theorem wrapping_frame_dispatched : ¬ Exact FrameRoundTrip.someMemory wrappingFrame := by
  intro h
  have hc : Complete wrappingFrame := by decide
  have he := (emits_iff FrameRoundTrip.someMemory hc (by decide) _ _).mpr
    ⟨by decide,by decide,by decide,rfl,rfl⟩
  exact absurd (h.covered _ _ he).2.2 (by decide)

end Shepoo.Server.FrameDispatch
